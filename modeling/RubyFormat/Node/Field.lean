import RubyFormat.Node.Basic

/-!
# The fields of a node

Every node is its kind, its place and a list of named fields, each of which holds a text or nodes.
What treats all nodes alike, such as a dump or a walk, works on this view.  `Node.fold` computes a
value for every node of a tree from the values in its fields; its equation `Node.fold_eq` is what
the functions defined by it rest on.
-/

namespace RubyFormat

/-- The content of a field: a text, or nodes in one of four arrangements. -/
inductive Field (α : Type) where
  | text (value : String)
  | node (value : α)
  | optional (value : Option α)
  | list (value : List α)
  | optionalList (value : Option (List α))
  deriving Repr

namespace Field

/-- Apply a function to every node of a field. -/
def map (f : α → β) : Field α → Field β
  | .text value => .text value
  | .node value => .node (f value)
  | .optional value => .optional (value.map f)
  | .list value => .list (value.map f)
  | .optionalList value => .optionalList (value.map (List.map f))

/-- The nodes of a field in order. -/
def toList : Field α → List α
  | .text _ => []
  | .node value => [value]
  | .optional value => value.toList
  | .list value => value
  | .optionalList value => value.getD []

end Field

namespace Node

/-- The named fields of a node in their order; the place is not among them. -/
def fields : Node → List (String × Field Node)
  | .name _ _ text => [("name", .text text)]
  | .literal _ _ raw => [("raw", .text raw)]
  | .callShorthand _ => []
  | .comment _ text => [("text", .text text)]
  | .program _ stmts => [("stmts", .list stmts)]
  | .commented _ stmt comments => [("stmt", .node stmt), ("comments", .list comments)]
  | .symbolLit _ value => [("value", .node value)]
  | .array _ elements => [("elements", .list elements)]
  | .assoc _ key value => [("key", .node key), ("value", .node value)]
  | .hash _ assocs => [("assocs", .list assocs)]
  | .bareAssocHash _ assocs => [("assocs", .list assocs)]
  | .lambda _ parameters body => [("params", .optional parameters), ("body", .list body)]
  | .varRef _ inner => [("inner", .node inner)]
  | .varField _ inner => [("inner", .optional inner)]
  | .constPathRef _ parent ident => [("parent", .node parent), ("name", .node ident)]
  | .field _ receiver operator ident => [
      ("receiver", .node receiver), ("operator", .text operator), ("name", .node ident)]
  | .aref _ receiver arguments => [("receiver", .node receiver), ("args", .optional arguments)]
  | .arefField _ receiver arguments => [
      ("receiver", .node receiver), ("args", .optional arguments)]
  | .assign _ target value => [("target", .node target), ("value", .node value)]
  | .opAssign _ target operator value => [
      ("target", .node target), ("operator", .text operator), ("value", .node value)]
  | .valueList _ values => [("values", .list values)]
  | .splatValueList _ values => [("values", .list values)]
  | .splat _ value => [("value", .node value)]
  | .doubleSplat _ value => [("value", .node value)]
  | .args _ parts => [("parts", .list parts)]
  | .argParen _ arguments => [("args", .optional arguments)]
  | .blockArg _ value => [("value", .optional value)]
  | .call _ receiver operator message arguments comments => [
      ("receiver", .node receiver), ("operator", .text operator), ("message", .node message),
      ("args", .optional arguments), ("comments", .list comments)]
  | .vcall _ message => [("message", .node message)]
  | .fcall _ message arguments => [("message", .node message), ("args", .optional arguments)]
  | .command _ message arguments => [("message", .node message), ("args", .node arguments)]
  | .methodAddBlock _ callee block => [("call", .node callee), ("block", .node block)]
  | .optionalParam _ ident default => [("name", .node ident), ("default", .node default)]
  | .restParam _ ident => [("name", .optional ident)]
  | .excessedComma _ => []
  | .keywordParam _ label default => [("label", .node label), ("default", .optional default)]
  | .keywordRestParam _ ident => [("name", .optional ident)]
  | .blockParam _ ident => [("name", .node ident)]
  | .params _ required optional rest post keywords keywordRest block => [
      ("required", .list required), ("optional", .list optional), ("rest", .optional rest),
      ("post", .list post), ("keywords", .list keywords),
      ("keyword_rest", .optional keywordRest), ("block", .optional block)]
  | .blockVar _ parameters => [("params", .optional parameters)]
  | .rescue _ exceptions target stmts next => [
      ("exceptions", .list exceptions), ("variable", .optional target), ("stmts", .list stmts),
      ("next", .optional next)]
  | .bodyStmt _ stmts handler elseBody ensure => [
      ("stmts", .list stmts), ("rescue", .optional handler),
      ("else_body", .optionalList elseBody), ("ensure", .optionalList ensure)]
  | .braceBlock _ parameters body => [("params", .optional parameters), ("body", .list body)]
  | .doBlock _ parameters body => [("params", .optional parameters), ("body", .node body)]
  | .binary _ left op right => [("left", .node left), ("op", .text op), ("right", .node right)]
  | .unary _ op operand => [("op", .text op), ("operand", .node operand)]
  | .paren _ expr => [("expr", .node expr)]
  | .bare _ => []

/-- The nodes right below a node, in order. -/
def children (node : Node) : List Node :=
  node.fields.flatMap fun field => field.2.toList

end Node

/-- The values in a field are the images of those that it is mapped from. -/
@[simp]
theorem Field.toList_map (f : α → β) (field : Field α) :
    (field.map f).toList = field.toList.map f := by
  cases field with
  | optional value => cases value <;> simp [Field.map, Field.toList]
  | optionalList value => cases value <;> simp [Field.map, Field.toList]
  | _ => simp [Field.map, Field.toList]

/-- A node in a field is smaller than the field. -/
theorem Field.sizeOf_lt_of_mem {field : Field Node} {node : Node} (h : node ∈ field.toList) :
    sizeOf node < sizeOf field := by
  cases field with
  | text value => simp [Field.toList] at h
  | node value => simp_all [Field.toList]
  | optional value =>
      cases value <;> simp_all [Field.toList]
      omega
  | list value =>
      have := List.sizeOf_lt_of_mem h
      simp [Field.toList] at *
      omega
  | optionalList value =>
      cases value with
      | none => simp [Field.toList] at h
      | some value =>
          have := List.sizeOf_lt_of_mem h
          simp [Field.toList] at *
          omega

namespace Node

/-- A field is no larger than its node. -/
theorem sizeOf_le_of_mem_fields {node : Node} {field : String × Field Node}
    (h : field ∈ node.fields) : sizeOf field.2 ≤ sizeOf node := by
  cases node <;> simp only [fields, List.mem_cons, List.not_mem_nil, or_false] at h <;>
    rcases h with rfl | rfl | rfl | rfl | rfl | rfl | rfl <;> simp <;> omega

/-- A node right below another is smaller. -/
theorem sizeOf_lt_of_mem_children {child node : Node} (h : child ∈ node.children) :
    sizeOf child < sizeOf node := by
  obtain ⟨field, mem, below⟩ := List.mem_flatMap.1 h
  exact Nat.lt_of_lt_of_le (Field.sizeOf_lt_of_mem below) (sizeOf_le_of_mem_fields mem)

/-- A property holds of every node if it passes from the nodes right below a node to the node. -/
theorem induction_children {P : Node → Prop}
    (step : ∀ node, (∀ child ∈ node.children, P child) → P node) (node : Node) : P node :=
  step node fun child _ => induction_children step child
termination_by sizeOf node
decreasing_by exact sizeOf_lt_of_mem_children ‹_›

/-- A property holds of every node if it passes from all smaller nodes to the node. -/
theorem induction_smaller {P : Node → Prop}
    (step : ∀ node, (∀ part : Node, sizeOf part < sizeOf node → P part) → P node) (node : Node) :
    P node :=
  step node fun part _ => induction_smaller step part
termination_by sizeOf node

/-! ## Values computed from the leaves up -/

mutual

/-- The value of a node, computed from the node and the values in its fields. -/
def fold (step : Node → List (String × Field α) → α) : Node → α
  | .name kind pos text => step (.name kind pos text) [("name", .text text)]
  | .literal kind pos raw => step (.literal kind pos raw) [("raw", .text raw)]
  | .callShorthand pos => step (.callShorthand pos) []
  | .comment pos text => step (.comment pos text) [("text", .text text)]
  | .program pos stmts =>
      step (.program pos stmts) [("stmts", .list (foldList step stmts))]
  | .commented pos stmt comments =>
      step (.commented pos stmt comments) [
        ("stmt", .node (fold step stmt)), ("comments", .list (foldList step comments))]
  | .symbolLit pos value =>
      step (.symbolLit pos value) [("value", .node (fold step value))]
  | .array pos elements =>
      step (.array pos elements) [
        ("elements", .list (foldList step elements))]
  | .assoc pos key value =>
      step (.assoc pos key value) [
        ("key", .node (fold step key)), ("value", .node (fold step value))]
  | .hash pos assocs =>
      step (.hash pos assocs) [("assocs", .list (foldList step assocs))]
  | .bareAssocHash pos assocs =>
      step (.bareAssocHash pos assocs) [
        ("assocs", .list (foldList step assocs))]
  | .lambda pos parameters body =>
      step (.lambda pos parameters body) [
        ("params", .optional (foldOption step parameters)), ("body", .list (foldList step body))]
  | .varRef pos inner =>
      step (.varRef pos inner) [("inner", .node (fold step inner))]
  | .varField pos inner =>
      step (.varField pos inner) [
        ("inner", .optional (foldOption step inner))]
  | .constPathRef pos parent ident =>
      step (.constPathRef pos parent ident) [
        ("parent", .node (fold step parent)), ("name", .node (fold step ident))]
  | .field pos receiver operator ident =>
      step (.field pos receiver operator ident) [
        ("receiver", .node (fold step receiver)), ("operator", .text operator),
        ("name", .node (fold step ident))]
  | .aref pos receiver arguments =>
      step (.aref pos receiver arguments) [
        ("receiver", .node (fold step receiver)),
        ("args", .optional (foldOption step arguments))]
  | .arefField pos receiver arguments =>
      step (.arefField pos receiver arguments) [
        ("receiver", .node (fold step receiver)),
        ("args", .optional (foldOption step arguments))]
  | .assign pos target value =>
      step (.assign pos target value) [
        ("target", .node (fold step target)), ("value", .node (fold step value))]
  | .opAssign pos target operator value =>
      step (.opAssign pos target operator value) [
        ("target", .node (fold step target)), ("operator", .text operator),
        ("value", .node (fold step value))]
  | .valueList pos values =>
      step (.valueList pos values) [
        ("values", .list (foldList step values))]
  | .splatValueList pos values =>
      step (.splatValueList pos values) [
        ("values", .list (foldList step values))]
  | .splat pos value =>
      step (.splat pos value) [("value", .node (fold step value))]
  | .doubleSplat pos value =>
      step (.doubleSplat pos value) [
        ("value", .node (fold step value))]
  | .args pos parts =>
      step (.args pos parts) [("parts", .list (foldList step parts))]
  | .argParen pos arguments =>
      step (.argParen pos arguments) [
        ("args", .optional (foldOption step arguments))]
  | .blockArg pos value =>
      step (.blockArg pos value) [
        ("value", .optional (foldOption step value))]
  | .call pos receiver operator message arguments comments =>
      step (.call pos receiver operator message arguments comments) [
        ("receiver", .node (fold step receiver)), ("operator", .text operator),
        ("message", .node (fold step message)), ("args", .optional (foldOption step arguments)),
        ("comments", .list (foldList step comments))]
  | .vcall pos message =>
      step (.vcall pos message) [("message", .node (fold step message))]
  | .fcall pos message arguments =>
      step (.fcall pos message arguments) [
        ("message", .node (fold step message)), ("args", .optional (foldOption step arguments))]
  | .command pos message arguments =>
      step (.command pos message arguments) [
        ("message", .node (fold step message)), ("args", .node (fold step arguments))]
  | .methodAddBlock pos callee block =>
      step (.methodAddBlock pos callee block) [
        ("call", .node (fold step callee)), ("block", .node (fold step block))]
  | .optionalParam pos ident default =>
      step (.optionalParam pos ident default) [
        ("name", .node (fold step ident)), ("default", .node (fold step default))]
  | .restParam pos ident =>
      step (.restParam pos ident) [
        ("name", .optional (foldOption step ident))]
  | .excessedComma pos =>
      step (.excessedComma pos) []
  | .keywordParam pos label default =>
      step (.keywordParam pos label default) [
        ("label", .node (fold step label)), ("default", .optional (foldOption step default))]
  | .keywordRestParam pos ident =>
      step (.keywordRestParam pos ident) [
        ("name", .optional (foldOption step ident))]
  | .blockParam pos ident =>
      step (.blockParam pos ident) [
        ("name", .node (fold step ident))]
  | .params pos required optional rest post keywords keywordRest block =>
      step (.params pos required optional rest post keywords keywordRest block) [
        ("required", .list (foldList step required)),
        ("optional", .list (foldList step optional)), ("rest", .optional (foldOption step rest)),
        ("post", .list (foldList step post)), ("keywords", .list (foldList step keywords)),
        ("keyword_rest", .optional (foldOption step keywordRest)),
        ("block", .optional (foldOption step block))]
  | .blockVar pos parameters =>
      step (.blockVar pos parameters) [
        ("params", .optional (foldOption step parameters))]
  | .rescue pos exceptions target stmts next =>
      step (.rescue pos exceptions target stmts next) [
        ("exceptions", .list (foldList step exceptions)),
        ("variable", .optional (foldOption step target)), ("stmts", .list (foldList step stmts)),
        ("next", .optional (foldOption step next))]
  | .bodyStmt pos stmts handler elseBody ensure =>
      step (.bodyStmt pos stmts handler elseBody ensure) [
        ("stmts", .list (foldList step stmts)), ("rescue", .optional (foldOption step handler)),
        ("else_body", .optionalList (foldOptionList step elseBody)),
        ("ensure", .optionalList (foldOptionList step ensure))]
  | .braceBlock pos parameters body =>
      step (.braceBlock pos parameters body) [
        ("params", .optional (foldOption step parameters)), ("body", .list (foldList step body))]
  | .doBlock pos parameters body =>
      step (.doBlock pos parameters body) [
        ("params", .optional (foldOption step parameters)), ("body", .node (fold step body))]
  | .binary pos left op right =>
      step (.binary pos left op right) [
        ("left", .node (fold step left)), ("op", .text op), ("right", .node (fold step right))]
  | .unary pos op operand =>
      step (.unary pos op operand) [
        ("op", .text op), ("operand", .node (fold step operand))]
  | .paren pos expr =>
      step (.paren pos expr) [("expr", .node (fold step expr))]
  | .bare pos =>
      step (.bare pos) []

/-- The values of the nodes of a list. -/
def foldList (step : Node → List (String × Field α) → α) : List Node → List α
  | [] => []
  | node :: rest => fold step node :: foldList step rest

/-- The value of a node that may be absent. -/
def foldOption (step : Node → List (String × Field α) → α) : Option Node → Option α
  | none => none
  | some node => some (fold step node)

/-- The values of the nodes of a list that may be absent. -/
def foldOptionList (step : Node → List (String × Field α) → α) :
    Option (List Node) → Option (List α)
  | none => none
  | some nodes => some (foldList step nodes)

end

@[simp]
theorem foldList_eq_map (step : Node → List (String × Field α) → α) (nodes : List Node) :
    foldList step nodes = nodes.map (fold step) := by
  induction nodes with
  | nil => simp [foldList]
  | cons node rest ih => simp [foldList, ih]

@[simp]
theorem foldOption_eq_map (step : Node → List (String × Field α) → α) (node : Option Node) :
    foldOption step node = node.map (fold step) := by
  cases node <;> simp [foldOption]

@[simp]
theorem foldOptionList_eq_map (step : Node → List (String × Field α) → α)
    (nodes : Option (List Node)) :
    foldOptionList step nodes = nodes.map (List.map (fold step)) := by
  cases nodes <;> simp [foldOptionList]

/-- The value of a node is the step applied to the values of the nodes in its fields. -/
theorem fold_eq (step : Node → List (String × Field α) → α) (node : Node) :
    fold step node = step node (node.fields.map fun field => (field.1, field.2.map (fold step))) := by
  cases node <;> simp [fold, fields, Field.map]

/-- All nodes of a tree, every node before those below it. -/
def preorder : Node → List Node :=
  fold fun node fields => node :: fields.flatMap fun field => field.2.toList.flatten

theorem preorder_eq (node : Node) : node.preorder = node :: node.children.flatMap preorder := by
  unfold preorder
  rw [fold_eq]
  simp only [children, List.flatMap_assoc, List.flatMap_map, Field.toList_map, ← List.flatMap_def]

/-- What passes down from node to node holds of all nodes of a tree if it does of the root. -/
theorem forall_preorder {P : Node → Prop}
    (down : ∀ node, P node → ∀ child ∈ node.children, P child) {tree : Node} (holds : P tree) :
    ∀ node ∈ tree.preorder, P node := by
  induction tree using induction_children with
  | step tree ih =>
    rw [preorder_eq, List.forall_mem_cons]
    refine ⟨holds, fun node mem => ?_⟩
    obtain ⟨child, inside, mem⟩ := List.mem_flatMap.1 mem
    exact ih child inside (down tree holds child inside) node mem

/-- Whether a test holds at all nodes of a tree. -/
def everywhere (test : Node → Bool) : Node → Bool :=
  fold fun node fields => test node && fields.all fun field => field.2.toList.all id

/-- A test holds everywhere in a tree if it holds at the root and in the trees right below. -/
theorem everywhere_iff {test : Node → Bool} {node : Node} :
    node.everywhere test = true ↔
      test node = true ∧ ∀ child ∈ node.children, child.everywhere test = true := by
  have unfolded : node.everywhere test =
      (test node && node.fields.all fun field => field.2.toList.all (everywhere test)) := by
    unfold everywhere
    rw [fold_eq]
    simp [List.all_map, Function.comp_def]
  rw [unfolded]
  simp only [Bool.and_eq_true, List.all_eq_true, children, List.mem_flatMap]
  refine and_congr_right fun _ => ⟨fun below child held => ?_, fun below content mem child inside =>
    below child ⟨content, mem, inside⟩⟩
  obtain ⟨content, mem, inside⟩ := held
  exact below content mem child inside

/-- A test holds everywhere in a tree if it holds of all its nodes. -/
theorem everywhere_iff_preorder {test : Node → Bool} {tree : Node} :
    tree.everywhere test = true ↔ ∀ node ∈ tree.preorder, test node = true := by
  induction tree using induction_children with
  | step tree ih =>
    rw [everywhere_iff, preorder_eq, List.forall_mem_cons]
    refine and_congr_right fun _ => ?_
    simp only [List.mem_flatMap, forall_exists_index, and_imp]
    exact ⟨fun below node child mem inside => (ih child mem).1 (below child mem) node inside,
      fun below child mem => (ih child mem).2 fun node inside => below node child mem inside⟩

end Node

end RubyFormat
