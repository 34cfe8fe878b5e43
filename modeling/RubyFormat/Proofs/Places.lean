import Mathlib.Data.List.Forall2
import RubyFormat.Draft.Settle
import RubyFormat.Layout.Basic
import RubyFormat.Node.Data

/-!
# Trees without places

Two trees are the same when they are equal once every node is moved to the first place of a source.
Where a node stands has no effect on its layout.
-/

namespace RubyFormat

namespace Field

/-- Functions that agree on the nodes of a field do the same to it. -/
theorem map_congr {f g : α → β} {field : Field α} (agree : ∀ node ∈ field.toList, f node = g node) :
    field.map f = field.map g := by
  cases field with
  | text value => rfl
  | node value => simp_all [map, toList]
  | optional value => cases value <;> simp_all [map, toList]
  | list value => simp_all [map, toList]
  | optionalList value => cases value <;> simp_all [map, toList]

theorem map_map (f : β → γ) (g : α → β) (field : Field α) :
    (field.map g).map f = field.map (f ∘ g) := by
  cases field <;> simp [map, Function.comp_def]

end Field

namespace Node

mutual

/-- The tree with every node at the first place. -/
def unplaced : Node → Node
  | .name kind _ text => .name kind .start text
  | .literal kind _ raw => .literal kind .start raw
  | .callShorthand _ => .callShorthand .start
  | .comment _ text => .comment .start text
  | .program _ stmts => .program .start (unplacedList stmts)
  | .commented _ stmt comments => .commented .start (unplaced stmt) (unplacedList comments)
  | .symbolLit _ value => .symbolLit .start (unplaced value)
  | .array _ elements => .array .start (unplacedList elements)
  | .assoc _ key value => .assoc .start (unplaced key) (unplaced value)
  | .hash _ assocs => .hash .start (unplacedList assocs)
  | .bareAssocHash _ assocs => .bareAssocHash .start (unplacedList assocs)
  | .lambda _ parameters body => .lambda .start (unplacedOption parameters) (unplacedList body)
  | .varRef _ inner => .varRef .start (unplaced inner)
  | .varField _ inner => .varField .start (unplacedOption inner)
  | .constPathRef _ parent ident => .constPathRef .start (unplaced parent) (unplaced ident)
  | .field _ receiver operator ident => .field .start (unplaced receiver) operator (unplaced ident)
  | .aref _ receiver arguments => .aref .start (unplaced receiver) (unplacedOption arguments)
  | .arefField _ receiver arguments =>
      .arefField .start (unplaced receiver) (unplacedOption arguments)
  | .assign _ target value => .assign .start (unplaced target) (unplaced value)
  | .opAssign _ target operator value =>
      .opAssign .start (unplaced target) operator (unplaced value)
  | .valueList _ values => .valueList .start (unplacedList values)
  | .splatValueList _ values => .splatValueList .start (unplacedList values)
  | .splat _ value => .splat .start (unplaced value)
  | .doubleSplat _ value => .doubleSplat .start (unplaced value)
  | .args _ parts => .args .start (unplacedList parts)
  | .argParen _ arguments => .argParen .start (unplacedOption arguments)
  | .blockArg _ value => .blockArg .start (unplacedOption value)
  | .call _ receiver operator message arguments comments =>
      .call .start (unplaced receiver) operator (unplaced message) (unplacedOption arguments)
        (unplacedList comments)
  | .vcall _ message => .vcall .start (unplaced message)
  | .fcall _ message arguments => .fcall .start (unplaced message) (unplacedOption arguments)
  | .command _ message arguments => .command .start (unplaced message) (unplaced arguments)
  | .methodAddBlock _ callee block => .methodAddBlock .start (unplaced callee) (unplaced block)
  | .optionalParam _ ident default => .optionalParam .start (unplaced ident) (unplaced default)
  | .restParam _ ident => .restParam .start (unplacedOption ident)
  | .excessedComma _ => .excessedComma .start
  | .keywordParam _ label default => .keywordParam .start (unplaced label) (unplacedOption default)
  | .keywordRestParam _ ident => .keywordRestParam .start (unplacedOption ident)
  | .blockParam _ ident => .blockParam .start (unplaced ident)
  | .params _ required optional rest post keywords keywordRest block =>
      .params .start (unplacedList required) (unplacedList optional) (unplacedOption rest)
        (unplacedList post) (unplacedList keywords) (unplacedOption keywordRest)
        (unplacedOption block)
  | .blockVar _ parameters => .blockVar .start (unplacedOption parameters)
  | .rescue _ exceptions target stmts next =>
      .rescue .start (unplacedList exceptions) (unplacedOption target) (unplacedList stmts)
        (unplacedOption next)
  | .bodyStmt _ stmts handler elseBody ensure =>
      .bodyStmt .start (unplacedList stmts) (unplacedOption handler) (unplacedOptionList elseBody)
        (unplacedOptionList ensure)
  | .braceBlock _ parameters body =>
      .braceBlock .start (unplacedOption parameters) (unplacedList body)
  | .doBlock _ parameters body => .doBlock .start (unplacedOption parameters) (unplaced body)
  | .binary _ left op right => .binary .start (unplaced left) op (unplaced right)
  | .unary _ op operand => .unary .start op (unplaced operand)
  | .paren _ expr => .paren .start (unplaced expr)
  | .bare _ => .bare .start
termination_by structural node => node

/-- The trees of a list with every node at the first place. -/
def unplacedList : List Node → List Node
  | [] => []
  | node :: rest => unplaced node :: unplacedList rest
termination_by structural nodes => nodes

/-- A tree that may be absent with every node at the first place. -/
def unplacedOption : Option Node → Option Node
  | none => none
  | some node => some (unplaced node)
termination_by structural node => node

/-- The trees of a list that may be absent with every node at the first place. -/
def unplacedOptionList : Option (List Node) → Option (List Node)
  | none => none
  | some nodes => some (unplacedList nodes)
termination_by structural nodes => nodes

end

@[simp]
theorem unplacedList_eq_map (nodes : List Node) : unplacedList nodes = nodes.map unplaced := by
  induction nodes with
  | nil => rfl
  | cons node rest ih => exact congrArg (unplaced node :: ·) ih

@[simp]
theorem unplacedOption_eq_map (node : Option Node) : unplacedOption node = node.map unplaced := by
  cases node <;> rfl

@[simp]
theorem unplacedOptionList_eq_map (nodes : Option (List Node)) :
    unplacedOptionList nodes = nodes.map (List.map unplaced) := by
  cases nodes with
  | none => rfl
  | some nodes => exact congrArg some (unplacedList_eq_map nodes)

@[simp]
theorem kind_unplaced (node : Node) : node.unplaced.kind = node.kind := by
  cases node <;> rfl

@[simp]
theorem pos_unplaced (node : Node) : node.unplaced.pos = .start := by
  cases node <;> rfl

/-- The fields of a tree without places hold the trees in its fields without places. -/
theorem fields_unplaced (node : Node) :
    node.unplaced.fields = node.fields.map fun field => (field.1, field.2.map unplaced) := by
  cases node <;> simp [unplaced, fields, Field.map]

/-- A tree without places is put together from its kind and its fields without places. -/
theorem unplaced_eq_ofFields (node : Node) :
    some node.unplaced =
      ofFields? .start node.kind (node.fields.map fun field => field.2.map unplaced) := by
  have together := ofFields?_fields node.unplaced
  rw [fields_unplaced, kind_unplaced, pos_unplaced, List.map_map] at together
  exact together.symm

/-! ## The same tree -/

/-- The dump of a node is made of the dumps of the nodes right below. -/
theorem dump_eq (places : Bool) (node : Node) :
    node.dump places =
      .object (("_type", .text node.kind.tag) ::
        (if places then [("pos", node.pos.toData)] else [])
          ++ node.fields.map fun field => (field.1, (field.2.map (dump places)).toData)) := by
  unfold dump
  rw [fold_eq]
  simp [Function.comp_def]

/-- A dump without places does not show where a node stands. -/
theorem dump_unplaced (node : Node) : node.unplaced.dump false = node.dump false := by
  induction node using induction_children with
  | step node ih =>
    have entries : (node.unplaced.fields.map fun field =>
        (field.1, (field.2.map (dump false)).toData)) =
        node.fields.map fun field => (field.1, (field.2.map (dump false)).toData) := by
      rw [fields_unplaced, List.map_map]
      refine List.map_congr_left fun field mem => ?_
      have below : field.2.map (dump false ∘ unplaced) = field.2.map (dump false) :=
        Field.map_congr fun child inside => ih child (List.mem_flatMap.2 ⟨field, mem, inside⟩)
      simp only [Function.comp_apply, Field.map_map, below]
    rw [dump_eq, dump_eq, kind_unplaced, entries]
    rfl

/-- A node that no dump without places confuses with one that differs from it elsewhere. -/
def ToldApart (node : Node) : Prop :=
  ∀ other : Node, node.dump false = other.dump false → node.unplaced = other.unplaced

theorem dump_ne_null (places : Bool) (node : Node) : node.dump places ≠ .null := by
  rw [dump_eq]
  nofun

theorem map_unplaced_of_dumps {nodes others : List Node} (apart : ∀ node ∈ nodes, node.ToldApart)
    (same : nodes.map (dump false) = others.map (dump false)) :
    nodes.map unplaced = others.map unplaced := by
  induction nodes generalizing others with
  | nil =>
      cases others with
      | nil => rfl
      | cons other others => cases same
  | cons node nodes ih =>
      cases others with
      | nil => cases same
      | cons other others =>
          obtain ⟨first, rest⟩ := List.cons.inj same
          have head := apart node List.mem_cons_self other first
          have tail := ih (fun node mem => apart node (List.mem_cons_of_mem _ mem)) rest
          rw [List.map_cons, List.map_cons, head, tail]

theorem option_unplaced_of_dumps {node other : Option Node} (apart : ∀ child ∈ node, child.ToldApart)
    (same : (node.map (dump false)).getD .null = (other.map (dump false)).getD .null) :
    node.map unplaced = other.map unplaced := by
  cases node with
  | none =>
      cases other with
      | none => rfl
      | some other => exact absurd same.symm (dump_ne_null false other)
  | some node =>
      cases other with
      | none => exact absurd same (dump_ne_null false node)
      | some other => exact congrArg some (apart node rfl other same)

/-- Fields of one sort with the same data hold the same nodes. -/
theorem field_unplaced_of_toData {sort : FieldSort} {left right : Field Node}
    (leftFits : Field.Fits sort left) (rightFits : Field.Fits sort right)
    (apart : ∀ child ∈ left.toList, child.ToldApart)
    (same : (left.map (dump false)).toData = (right.map (dump false)).toData) :
    left.map unplaced = right.map unplaced := by
  cases leftFits with
  | text value => cases rightFits; simpa [Field.map, Field.toData] using same
  | operator value => cases rightFits; simpa [Field.map, Field.toData] using same
  | node value =>
      cases rightFits with
      | node other => exact congrArg Field.node (apart value List.mem_cons_self other same)
  | optional value =>
      cases rightFits
      exact congrArg Field.optional
        (option_unplaced_of_dumps (by simpa [Field.toList] using apart) same)
  | rest value =>
      cases rightFits
      exact congrArg Field.optional
        (option_unplaced_of_dumps (by simpa [Field.toList] using apart) same)
  | list value =>
      cases rightFits
      exact congrArg Field.list (map_unplaced_of_dumps apart (Data.list.inj same))
  | optionalList value =>
      cases rightFits with
      | optionalList other =>
          cases value with
          | none => cases other <;> simp_all [Field.map, Field.toData]
          | some value =>
              cases other with
              | none => simp [Field.map, Field.toData] at same
              | some other =>
                  have lists := map_unplaced_of_dumps apart (Data.list.inj same)
                  exact congrArg (Field.optionalList ∘ some) lists

/-- The fields of a node are of the sorts that its kind asks for. -/
theorem fields_fit (node : Node) :
    List.Forall₂ Field.Fits (node.kind.schema.map (·.2)) (node.fields.map (·.2)) := by
  cases node <;> repeat' constructor

theorem fields_unplaced_of_toData {sorts : List FieldSort} {left right : List (Field Node)}
    (leftFit : List.Forall₂ Field.Fits sorts left) (rightFit : List.Forall₂ Field.Fits sorts right)
    (apart : ∀ field ∈ left, ∀ child ∈ field.toList, child.ToldApart)
    (same : (left.map fun field => (field.map (dump false)).toData) =
      right.map fun field => (field.map (dump false)).toData) :
    left.map (Field.map unplaced) = right.map (Field.map unplaced) := by
  induction leftFit generalizing right with
  | nil => cases rightFit; rfl
  | cons fits _ ih =>
      cases rightFit with
      | cons fits' rest =>
          obtain ⟨sameHead, sameTail⟩ := List.cons.inj same
          have head := field_unplaced_of_toData fits fits' (apart _ List.mem_cons_self) sameHead
          have tail := ih rest (fun field mem => apart field (List.mem_cons_of_mem _ mem)) sameTail
          rw [List.map_cons, List.map_cons, head, tail]

/-- A dump without places shows everything else. -/
theorem toldApart (node : Node) : node.ToldApart := by
  induction node using induction_children with
  | step node ih =>
    intro other same
    rw [dump_eq, dump_eq] at same
    obtain ⟨sameTag, sameFields⟩ := List.cons.inj (Data.object.inj same)
    have sameKind : node.kind = other.kind := by
      have found := Kind.ofTag?_tag node.kind
      rw [Data.text.inj (Prod.mk.inj sameTag).2, Kind.ofTag?_tag] at found
      exact (Option.some.inj found).symm
    have contents := congrArg (List.map Prod.snd) sameFields
    have sameContents : (node.fields.map (·.2)).map (Field.map unplaced) =
        (other.fields.map (·.2)).map (Field.map unplaced) := by
      refine fields_unplaced_of_toData (fields_fit node) (sameKind ▸ fields_fit other) ?_ ?_
      · intro field mem child inside
        obtain ⟨named, there, rfl⟩ := List.mem_map.1 mem
        exact ih child (List.mem_flatMap.2 ⟨named, there, inside⟩)
      · simpa [List.map_map, Function.comp_def] using contents
    have together := unplaced_eq_ofFields node
    simp only [List.map_map, Function.comp_def] at sameContents
    rw [sameKind, sameContents, ← unplaced_eq_ofFields] at together
    exact Option.some.inj together

/-- Two trees are the same exactly when they are equal without places. -/
theorem same_iff (left right : Node) : left.same right = true ↔ left.unplaced = right.unplaced := by
  rw [same, beq_iff_eq]
  constructor
  · exact toldApart left right
  · intro equal
    rw [← dump_unplaced left, equal, dump_unplaced]

/-! ## Layout -/

theorem paramsOf?_unplaced (node : Node) :
    node.unplaced.paramsOf? = node.paramsOf?.map unplaced := by
  cases node with
  | lambda pos params | braceBlock pos params | doBlock pos params | blockVar pos params =>
      exact unplacedOption_eq_map params
  | _ => rfl

theorem soleName?_unplaced (node : Node) : node.unplaced.soleName? = node.soleName? := by
  cases node with
  | params pos required optional rest post keywords keywordRest block =>
      cases required with
      | nil => rfl
      | cons first others =>
          cases first with
          | name kind pos text =>
              cases others <;> cases optional <;> cases rest <;> cases post <;> cases keywords <;>
                cases keywordRest <;> cases block <;> rfl
          | _ => rfl
  | _ => rfl

theorem blockStmts_unplaced (node : Node) :
    node.unplaced.blockStmts = node.blockStmts.map unplaced := by
  cases node with
  | braceBlock pos params body | lambda pos params body => exact unplacedList_eq_map body
  | doBlock pos params body =>
      cases body with
      | bodyStmt pos stmts rescue elseBody ensure =>
          cases rescue <;> cases elseBody <;> cases ensure <;>
            first | rfl | exact unplacedList_eq_map stmts
      | _ => rfl
  | _ => rfl

theorem messageTo?_unplaced (holder : String) (node : Node) :
    node.unplaced.messageTo? holder = node.messageTo? holder := by
  cases node with
  | call pos receiver operator message args comments =>
      cases receiver with
      | varRef pos inner =>
          cases inner with
          | name kind pos text =>
              cases message with
              | name messageKind pos messageText =>
                  cases args <;> cases comments <;> cases kind <;> cases messageKind <;> rfl
              | _ => cases kind <;> rfl
          | _ => rfl
      | _ => rfl
  | _ => rfl

theorem soleMessage?_unplaced (node : Node) : node.unplaced.soleMessage? = node.soleMessage? := by
  have holder : node.unplaced.soleParam? = node.soleParam? := by
    simp only [soleParam?, paramsOf?_unplaced, Option.bind_map]
    cases node.paramsOf? with
    | none => rfl
    | some params =>
        simp only [Option.bind_some, Function.comp_apply, paramsOf?_unplaced, Option.bind_map]
        exact congrArg _ (funext soleName?_unplaced)
  simp only [soleMessage?, holder, blockStmts_unplaced]
  cases node.soleParam? with
  | none => rfl
  | some name =>
      obtain _ | ⟨first, _ | ⟨second, others⟩⟩ := node.blockStmts
      · rfl
      · exact messageTo?_unplaced name first
      · rfl

@[simp]
theorem isConditionalOption_unplaced (node : Node) :
    node.unplaced.isConditionalOption = node.isConditionalOption := by
  cases node with
  | assoc pos key value =>
      cases key with
      | name kind pos text => cases kind <;> rfl
      | symbolLit pos value => cases value <;> rfl
      | _ => rfl
  | _ => rfl

/-- Places do not decide whether a block can be replaced. -/
theorem shorthand?_unplaced (parents : List Node) (carrier block : Node) :
    carrier.unplaced.shorthand? (parents.map unplaced) block.unplaced =
      carrier.shorthand? parents block := by
  have around : ((carrier.unplaced.optionAround? (parents.map unplaced)).map
      isConditionalOption).getD false =
        ((carrier.optionAround? parents).map isConditionalOption).getD false := by
    cases parents with
    | nil => cases carrier <;> rfl
    | cons parent others => cases carrier <;> cases others <;>
        simp [optionAround?, unplaced]
  rw [shorthand?, shorthand?, soleMessage?_unplaced, around]

theorem staysOnLine_unplaced (node : Node) : node.unplaced.staysOnLine = node.staysOnLine := by
  induction node using induction_children with
  | step node ih =>
    cases node with
    | call pos receiver operator message args comments =>
        exact ih receiver (by simp [children, fields, Field.toList])
    | literal kind pos raw => cases kind <;> rfl
    | _ => rfl

theorem hasTrailingComment_unplaced (node : Node) :
    node.unplaced.hasTrailingComment = node.hasTrailingComment := by
  cases node with
  | call pos receiver operator message args comments => cases comments <;> rfl
  | _ => rfl

theorem lineAround_unplaced (body : List Node) : lineAround (body.map unplaced) = lineAround body := by
  have any : (body.map unplaced).any hasTrailingComment = body.any hasTrailingComment := by
    rw [List.any_map]
    exact congrArg _ (funext hasTrailingComment_unplaced)
  rw [lineAround, lineAround, any]

theorem isLabel_unplaced (node : Node) : node.unplaced.isLabel = node.isLabel := by
  cases node with
  | name kind pos text => cases kind <;> rfl
  | _ => rfl

theorem isValueList_unplaced (node : Node) : node.unplaced.isValueList = node.isValueList := by
  cases node <;> rfl

theorem takesBlockArgument_unplaced (node : Node) :
    node.unplaced.takesBlockArgument = node.takesBlockArgument := by
  cases node <;> rfl

theorem layoutParams_unplaced (required optional : List Doc) (rest : Option Node)
    (restDoc : Option Doc) (post keywords : List Doc) (keywordRest block : Option Doc) :
    layoutParams required optional (rest.map unplaced) restDoc post keywords keywordRest block =
      layoutParams required optional rest restDoc post keywords keywordRest block := by
  cases rest with
  | none => rfl
  | some rest => cases rest <;> rfl

/-- Where a node stands has no effect on its layout, be it with or without one more argument. -/
theorem layout_unplaced_all (options : Options) (node : Node) :
    (∀ parents, node.unplaced.layout options (parents.map unplaced) = node.layout options parents) ∧
      (∀ parents extra, node.unplaced.layoutWith options (parents.map unplaced) extra =
        node.layoutWith options parents extra) ∧
      (∀ parents extra, layoutParenWith options (parents.map unplaced) extra (some node.unplaced) =
        layoutParenWith options parents extra (some node)) := by
  induction node using induction_children with
  | step node ih =>
    have below (parents : List Node) :
        (node.fields.map fun field => field.2.map fun child =>
          child.unplaced.layout options (node.unplaced :: parents.map unplaced)) =
          node.fields.map fun field => field.2.map (layout options (node :: parents)) := by
      refine List.map_congr_left fun field mem => Field.map_congr fun child inside => ?_
      exact (ih child (List.mem_flatMap.2 ⟨field, mem, inside⟩)).1 (node :: parents)
    have paren (args : Option Node) (inside : ∀ child ∈ args, child ∈ node.children)
        (parents : List Node) (extra : String) :
        layoutParenWith options (node.unplaced :: parents.map unplaced) extra (args.map unplaced) =
          layoutParenWith options (node :: parents) extra args := by
      cases args with
      | none => rfl
      | some child => exact (ih child (inside child rfl)).2.2 (node :: parents) extra
    cases node with
    | methodAddBlock pos callee block =>
      simp only [fields, Field.map, List.map_cons, List.map_nil, List.cons.injEq, and_true,
        Field.node.injEq, unplaced] at below
      have withExtra := (ih callee (by simp [children, fields, Field.toList])).2.1
      refine ⟨fun parents => ?_, fun _ _ => rfl, fun _ _ => rfl⟩
      have carrier := shorthand?_unplaced parents (.methodAddBlock pos callee block) block
      simp only [unplaced] at carrier
      simp only [layout, unplaced, takesBlockArgument_unplaced, carrier, below]
      split
      · exact withExtra (.methodAddBlock pos callee block :: parents) _
      · rfl
    | call pos receiver operator message args comments =>
      simp only [fields, Field.map, List.map_cons, List.map_nil, List.cons.injEq, and_true,
        true_and, Field.node.injEq, Field.list.injEq, Field.optional.injEq, unplaced,
        unplacedList_eq_map, unplacedOption_eq_map] at below
      have paren := paren args (by simp +contextual [children, fields, Field.toList])
      simp only [unplaced, unplacedList_eq_map, unplacedOption_eq_map] at paren
      refine ⟨fun parents => ?_, fun parents extra => ?_, fun _ _ => rfl⟩
      · simp only [layout, unplaced, layoutList_eq_map, layoutOption_eq_map, unplacedList_eq_map,
          unplacedOption_eq_map, List.map_map, Option.map_map, Function.comp_def, below]
      · simp only [layoutWith, unplaced, unplacedList_eq_map, unplacedOption_eq_map, paren, below]
    | fcall pos message args =>
      simp only [fields, Field.map, List.map_cons, List.map_nil, List.cons.injEq, and_true,
        Field.node.injEq, Field.optional.injEq, unplaced,
        unplacedOption_eq_map] at below
      have paren := paren args (by simp +contextual [children, fields, Field.toList])
      simp only [unplaced, unplacedOption_eq_map] at paren
      refine ⟨fun parents => ?_, fun parents extra => ?_, fun _ _ => rfl⟩
      · simp only [layout, unplaced, layoutOption_eq_map, unplacedOption_eq_map, Option.map_map,
          Function.comp_def, below]
      · simp only [layoutWith, unplaced, unplacedOption_eq_map, paren, below]
    | command pos message args =>
      simp only [fields, Field.map, List.map_cons, List.map_nil, List.cons.injEq, and_true,
        Field.node.injEq, unplaced] at below
      refine ⟨fun parents => ?_, fun parents extra => ?_, fun _ _ => rfl⟩
      · simp only [layout, unplaced, below]
      · simp only [layoutWith, unplaced, below]
    | argParen pos args =>
      simp only [fields, Field.map, List.map_cons, List.map_nil, List.cons.injEq, and_true,
        Field.optional.injEq, unplaced,
        unplacedOption_eq_map] at below
      refine ⟨fun parents => ?_, fun _ _ => rfl, fun parents extra => ?_⟩
      · simp only [layout, unplaced, layoutOption_eq_map, unplacedOption_eq_map, Option.map_map,
          Function.comp_def, below]
      · simp only [layoutParenWith, unplaced, layoutOption_eq_map, unplacedOption_eq_map,
          Option.map_map, Function.comp_def, below]
    | _ =>
      simp only [fields, Field.map, List.map_cons, List.map_nil, List.cons.injEq, and_true,
        true_and, Field.node.injEq, Field.list.injEq, Field.optional.injEq,
        Field.optionalList.injEq, unplaced, unplacedList_eq_map, unplacedOption_eq_map,
        unplacedOptionList_eq_map, implies_true] at below
      refine ⟨fun parents => ?_, fun _ _ => rfl, fun _ _ => rfl⟩
      simp only [layout, unplaced, layoutList_eq_map, layoutOption_eq_map,
        layoutOptionList_eq_map, unplacedList_eq_map, unplacedOption_eq_map,
        unplacedOptionList_eq_map, List.map_map, Option.map_map, Function.comp_def, below,
        lineAround_unplaced, isLabel_unplaced, staysOnLine_unplaced, isValueList_unplaced,
        layoutParams_unplaced]

/-- Trees that are the same have the same layout. -/
theorem layout_eq_of_same {left right : Node} (same : left.same right = true) (options : Options) :
    left.layout options [] = right.layout options [] := by
  have equal := (same_iff left right).1 same
  rw [← (layout_unplaced_all options left).1 [], equal, (layout_unplaced_all options right).1 []]

end Node

end RubyFormat
