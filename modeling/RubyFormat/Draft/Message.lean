import RubyFormat.Draft.Shorthand
import RubyFormat.Draft.Tree
import RubyFormat.Shorthand

/-!
# The message of a block, in a tree and in its draft

A block of a tree is read as its draft is: `soleMessage?_of_toDraft` says that the message found in
the draft of a block is the one that the block sends.
-/

namespace RubyFormat.Draft

/-- A reading in two steps succeeds only if both steps do. -/
theorem bind_ok {value : Except Fault α} {next : α → Except Fault β} {result : β}
    (run : value >>= next = .ok result) :
    ∃ produced, value = .ok produced ∧ next produced = .ok result := by
  cases value with
  | error fault => cases run
  | ok produced => exact ⟨produced, rfl, run⟩

/-! ## Fields of the draft of a tree -/

/-- A field of the draft of a node is the draft of the field. -/
theorem get_toDraft (node : Node) (name : String) :
    node.toDraft.get name =
      match node.fields.find? (·.1 == name) with
      | some field => .ok (field.2.map Node.toDraft).toDraft
      | none => .error (.noField node.kind.typeName name) := by
  rw [Node.toDraft_eq]
  simp only [get, field?, List.find?_map, Function.comp_def, typeName]
  cases node.fields.find? (·.1 == name) <;> rfl

/-- What is absent counts as such. -/
theorem isAbsent_absent : absent.isAbsent = true := rfl

/-- A list is not absent. -/
theorem isAbsent_list (items : List Draft) : (list items).isAbsent = false := rfl

/-- A node is not absent. -/
theorem isAbsent_toDraft (node : Node) : node.toDraft.isAbsent = false := by
  rw [Node.toDraft_eq]
  rfl

/-- A node is no text. -/
theorem toDraft_ne_text (node : Node) (value : String) : node.toDraft ≠ .text value := by
  rw [Node.toDraft_eq]
  exact Draft.noConfusion

/-- What may be a node is no text. -/
theorem getD_toDraft_ne_text (node : Option Node) (value : String) :
    (node.map Node.toDraft).getD .absent ≠ .text value := by
  cases node with
  | none => exact Draft.noConfusion
  | some node => exact toDraft_ne_text node value

/-- Nothing is present exactly if the node is missing. -/
theorem present_getD_eq_nil_iff (node : Option Node) :
    ((node.map Node.toDraft).getD .absent).present = [] ↔ node = none := by
  cases node with
  | none => exact ⟨fun _ => rfl, fun _ => rfl⟩
  | some node => simp [present, isAbsent_toDraft]

/-- A text is the same as nothing but itself. -/
theorem eq_of_same_text {value : String} {draft : Draft} (same : (text value).same draft = true) :
    draft = .text value := by
  cases draft <;> simp [Draft.same, counting, dump] at same
  exact congrArg Draft.text same.symm

/-! ## The parameter of a block -/

/-- The parameters that a draft has are those of the tree. -/
theorem get_params_toDraft {block : Node} {holder : Draft}
    (found : block.toDraft.get "params" = .ok holder) :
    holder = (block.paramsOf?.map Node.toDraft).getD .absent := by
  rw [get_toDraft] at found
  cases block <;> simp [Node.fields, Field.map, Field.toDraft] at found <;>
    simp [Node.paramsOf?, ← found]

/-- Only a leaf has a text as its name. -/
theorem eq_name_of_get_name {param : Node} {value : String}
    (found : param.toDraft.get "name" = .ok (.text value)) :
    ∃ kind pos, param = .name kind pos value := by
  rw [get_toDraft] at found
  cases param <;>
    simp_all [Node.fields, Field.map, Field.toDraft, toDraft_ne_text, getD_toDraft_ne_text]

/-- Only a list of parameters has required ones. -/
theorem kind_of_get_required {node : Node} {content : Draft}
    (found : node.toDraft.get "required" = .ok content) : node.kind = .params := by
  rw [get_toDraft] at found
  cases node <;> simp [Node.fields] at found
  rfl

/-- A list of parameters without others has only required ones. -/
theorem eq_nil_of_otherParams {pos : Pos} {required optional post keywords : List Node}
    {rest keywordRest block : Option Node}
    (found :
      (Node.params pos required optional rest post keywords keywordRest block).toDraft.otherParams =
        .ok []) :
    optional = [] ∧ rest = none ∧ post = [] ∧ keywords = [] ∧ keywordRest = none ∧ block = none := by
  have listing :
      (Node.params pos required optional rest post keywords keywordRest block).toDraft.otherParams =
        .ok (optional.map Node.toDraft ++ ((rest.map Node.toDraft).getD .absent).present
          ++ post.map Node.toDraft ++ keywords.map Node.toDraft
          ++ ((keywordRest.map Node.toDraft).getD .absent).present
          ++ ((block.map Node.toDraft).getD .absent).present) := by
    rw [Node.toDraft_eq]
    rfl
  rw [listing, Except.ok.injEq] at found
  simp only [List.append_eq_nil_iff, List.map_eq_nil_iff, present_getD_eq_nil_iff] at found
  obtain ⟨⟨⟨⟨⟨noOptional, noRest⟩, noPost⟩, noKeywords⟩, noKeywordRest⟩, noBlock⟩ := found
  exact ⟨noOptional, noRest, noPost, noKeywords, noKeywordRest, noBlock⟩

/-- The name that the draft of a list of parameters has is that of the list. -/
theorem soleName?_of_toDraft {params : Node} {value : String}
    (found : params.toDraft.soleName = .ok (some (.text value))) :
    params.soleName? = some value := by
  obtain ⟨content, stored, found⟩ := bind_ok found
  have ofKind := kind_of_get_required stored
  cases params with
  | params pos required optional rest post keywords keywordRest block =>
    rw [get_toDraft] at stored
    cases stored
    obtain ⟨items, counted, found⟩ := bind_ok found
    cases counted
    match required, found with
    | [], found => cases found
    | _ :: _ :: _, found => cases found
    | [param], found =>
      obtain ⟨others, listed, found⟩ := bind_ok found
      cases others with
      | cons => cases found
      | nil =>
        obtain ⟨name, named, found⟩ := bind_ok found
        cases found
        obtain ⟨kind, namePos, rfl⟩ := eq_name_of_get_name named
        obtain ⟨rfl, rfl, rfl, rfl, rfl, rfl⟩ := eq_nil_of_otherParams listed
        rfl
  | _ => cases ofKind

/-- The parameter found in the draft of a block is that of the block. -/
theorem soleParam?_of_toDraft {block : Node} {value : String}
    (found : block.toDraft.soleParam = .ok (some (.text value))) :
    block.soleParam? = some value := by
  obtain ⟨holder, held, found⟩ := bind_ok found
  rw [get_params_toDraft held] at found
  cases outer : block.paramsOf? with
  | none =>
    rw [outer] at found
    cases found
  | some bars =>
    rw [outer, Option.map_some, Option.getD_some, isAbsent_toDraft] at found
    obtain ⟨list, listed, found⟩ := bind_ok found
    rw [get_params_toDraft listed] at found
    cases inner : bars.paramsOf? with
    | none =>
      rw [inner] at found
      cases found
    | some params =>
      rw [inner, Option.map_some, Option.getD_some, isAbsent_toDraft] at found
      simp [Node.soleParam?, outer, inner, soleName?_of_toDraft found]

/-! ## The statements of a block -/

/-- The statements of a block other than between `do` and `end` are its body. -/
theorem blockStmts_of_kind_ne {block : Node} (other : block.kind ≠ .doBlock) :
    block.toDraft.blockStmts = (do (← block.toDraft.get "body").counted) := by
  rw [Node.toDraft_eq]
  generalize block.kind = kind at other
  cases kind with
  | doBlock => exact absurd rfl other
  | _ => rfl

/-- Only the body of a block has handlers of exceptions. -/
theorem kind_of_get_rescue {node : Node} {content : Draft}
    (found : node.toDraft.get "rescue" = .ok content) : node.kind = .bodyStmt := by
  rw [get_toDraft] at found
  cases node <;> simp [Node.fields] at found
  rfl

/-- The statements of a block between `do` and `end` stand in its body. -/
theorem blockStmts_doBlock (pos : Pos) (params : Option Node) (body : Node) :
    (Node.doBlock pos params body).toDraft.blockStmts = (do
      let rescue ← body.toDraft.get "rescue"
      let elseBody ← body.toDraft.get "else_body"
      let ensure ← body.toDraft.get "ensure"
      if rescue.isAbsent && elseBody.isAbsent && ensure.isAbsent then
        (← body.toDraft.get "stmts").counted
      else
        return []) := by
  conv => lhs; rw [Node.toDraft_eq]
  rfl

/-- The statements that the body of a block has, if there is no other clause. -/
theorem blockStmts_bodyStmt (pos bodyPos : Pos) (params handler : Option Node)
    (stmts : List Node) (elseBody ensure : Option (List Node)) :
    (Node.doBlock pos params (.bodyStmt bodyPos stmts handler elseBody ensure)).toDraft.blockStmts =
      .ok ((Node.doBlock pos params
        (.bodyStmt bodyPos stmts handler elseBody ensure)).blockStmts.map Node.toDraft) := by
  rw [blockStmts_doBlock]
  cases handler <;> cases elseBody <;> cases ensure <;>
    simp [get_toDraft, Node.fields, Field.map, Field.toDraft, isAbsent_toDraft, isAbsent_absent,
      isAbsent_list, counted, items?, Node.blockStmts, bind, Except.bind, pure, Except.pure]

/-- The statements found in the draft of a block are drafts of those of the block. -/
theorem eq_map_of_blockStmts {block : Node} {stmts : List Draft}
    (found : block.toDraft.blockStmts = .ok stmts) : stmts = block.blockStmts.map Node.toDraft := by
  cases block with
  | doBlock pos params body =>
    have reading := found
    rw [blockStmts_doBlock] at reading
    obtain ⟨handler, handled, _⟩ := bind_ok reading
    have ofKind := kind_of_get_rescue handled
    cases body <;> try cases ofKind
    rw [blockStmts_bodyStmt] at found
    exact (Except.ok.inj found).symm
  | _ =>
    rw [blockStmts_of_kind_ne (by simp [Node.kind]), get_toDraft] at found
    simp [Node.fields, bind, Except.bind, Field.map, Field.toDraft, counted, items?] at found
    try exact found.symm

/-! ## The message -/

/-- Only a reference to a variable has a draft of that kind. -/
theorem eq_varRef_of_toDraft {node : Node} {line col : Int} {fields : List (String × Draft)}
    (made : node.toDraft = .node .varRef line col fields) :
    ∃ pos inner, node = .varRef pos inner ∧ fields = [("inner", inner.toDraft)] := by
  rw [Node.toDraft_eq] at made
  cases node <;> injection made with ofKind _ _ content <;> try cases ofKind
  exact ⟨_, _, rfl, content.symm⟩

/-- Only a leaf of a kind has a draft of that kind. -/
theorem eq_name_of_toDraft {node : Node} {kind : NameKind} {line col : Int}
    {fields : List (String × Draft)} (made : node.toDraft = .node (.name kind) line col fields) :
    ∃ pos value, node = .name kind pos value ∧ fields = [("name", .text value)] := by
  rw [Node.toDraft_eq] at made
  cases node <;> injection made with ofKind _ _ content <;> try cases ofKind
  exact ⟨_, _, rfl, content.symm⟩

/-- The message that the draft of a statement sends is that of the statement. -/
theorem messageTo?_of_toDraft {holder : Draft} {stmt : Node} {message : Draft}
    (found : messageTo holder stmt.toDraft = .ok (some message)) :
    ∃ name word, holder = .text name ∧ message = .text word ∧ stmt.messageTo? name = some word := by
  rw [Node.toDraft_eq] at found
  cases stmt <;> try cases found
  rename_i pos receiver operator sent arguments comments
  obtain ⟨listed, counted, reading⟩ := bind_ok found
  cases counted
  cases comments <;> try cases reading
  rw [if_neg (by simp)] at reading
  split at reading
  · rename_i atReceiver atOperator atMessage atArguments
    obtain ⟨_, inner, rfl, atInner⟩ := eq_varRef_of_toDraft atReceiver
    injection atInner with atInner _
    obtain ⟨_, name, rfl, atName⟩ := eq_name_of_toDraft (Prod.mk.inj atInner).2.symm
    obtain ⟨_, word, rfl, atWord⟩ := eq_name_of_toDraft atMessage
    cases atOperator
    cases atName
    cases atWord
    cases arguments with
    | some arguments =>
      have there := isAbsent_toDraft arguments
      change arguments.toDraft = absent at atArguments
      rw [atArguments] at there
      cases there
    | none =>
      split at reading
      · rename_i holds
        cases reading
        simp only [Bool.and_eq_true, Bool.or_eq_true, beq_iff_eq] at holds
        obtain ⟨⟨isHolder, isPlain⟩, isNotCall⟩ := holds
        refine ⟨name, word, eq_of_same_text isHolder, rfl, ?_⟩
        have differs : word ≠ "call" := by
          rintro rfl
          exact absurd isNotCall (by decide)
        simp [Node.messageTo?, isPlain, differs]
      · cases reading
  · cases reading

/-- The message found in the draft of a block is the one that the block sends. -/
theorem soleMessage?_of_toDraft {block : Node} {message : Draft}
    (found : block.toDraft.soleMessage = .ok (some message)) :
    ∃ word, message = .text word ∧ block.soleMessage? = some word := by
  obtain ⟨holder?, held, found⟩ := bind_ok found
  cases holder? with
  | none => cases found
  | some holder =>
    obtain ⟨stmts, listed, found⟩ := bind_ok found
    rw [eq_map_of_blockStmts listed] at found
    match only : block.blockStmts, found with
    | [], found => cases found
    | _ :: _ :: _, found => cases found
    | [stmt], found =>
      obtain ⟨name, word, rfl, rfl, sent⟩ := messageTo?_of_toDraft found
      refine ⟨word, rfl, ?_⟩
      simp [Node.soleMessage?, soleParam?_of_toDraft held, only, sent]

end RubyFormat.Draft
