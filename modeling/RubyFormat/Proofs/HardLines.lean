import RubyFormat.Proofs.FixedPoint

/-!
# The constructs that break lines

A hard line anywhere in a document breaks every group around it, so one construct with a hard line
decides the layout of all that stands around it.  Three constructs have hard lines of their own: a
block between `do` and `end` always, a block between braces and a lambda if they hold more than one
statement or a comment that has to end its line.  Every other construct breaks exactly if one of its
parts does.
-/

namespace RubyFormat

/-! ## Hard lines of the shapes -/

namespace Doc

@[simp]
theorem hasHardLine_text (value : String) : (Doc.text value).hasHardLine = false := rfl

@[simp]
theorem hasHardLine_concat (parts : List Doc) :
    (Doc.concat parts).hasHardLine = parts.any hasHardLine :=
  anyHardLine_eq_any parts

@[simp]
theorem hasHardLine_group (contents : Doc) :
    (Doc.group contents).hasHardLine = contents.hasHardLine := rfl

@[simp]
theorem hasHardLine_indent (contents : Doc) :
    (Doc.indent contents).hasHardLine = contents.hasHardLine := rfl

@[simp]
theorem hasHardLine_line (hard : Bool) : (Doc.line hard).hasHardLine = hard := rfl

/-- A separator counts if there are two parts or more. -/
@[simp]
theorem hasHardLine_join (separator : Doc) (parts : List Doc) :
    (Doc.join separator parts).hasHardLine =
      (parts.any hasHardLine || (decide (2 ≤ parts.length) && separator.hasHardLine)) := by
  rw [join, hasHardLine_concat]
  induction parts with
  | nil => rfl
  | cons first rest ih =>
      cases rest with
      | nil => simp
      | cons second more =>
          rw [List.intersperse_cons_cons, List.any_cons, List.any_cons, ih]
          cases separator.hasHardLine <;> simp

end Doc

namespace Layout

open Doc

variable (items : List Doc) (left right : Doc) (some? : Option Doc)

@[simp]
theorem hasHardLine_listed : (listed items).hasHardLine = items.any hasHardLine := by
  simp [listed, comma, softLine]

@[simp]
theorem hasHardLine_stmts :
    (stmts items).hasHardLine = (items.any hasHardLine || decide (2 ≤ items.length)) := by
  simp [stmts, hardLine]

@[simp]
theorem any_hasHardLine_trailing : (trailing items).any hasHardLine = items.any hasHardLine := by
  simp [trailing, List.any_flatMap]

@[simp]
theorem hasHardLine_hanging : (hanging left).hasHardLine = left.hasHardLine := by
  simp [hanging, softLine]

@[simp]
theorem hasHardLine_array : (array items).hasHardLine = items.any hasHardLine := by
  unfold array
  split <;> simp_all

@[simp]
theorem hasHardLine_hash : (hash items).hasHardLine = items.any hasHardLine := by
  unfold hash
  split <;> simp_all [softLine]

@[simp]
theorem hasHardLine_assoc (labelled : Bool) :
    (assoc labelled left right).hasHardLine = (left.hasHardLine || right.hasHardLine) := by
  unfold assoc
  split <;> simp

@[simp]
theorem hasHardLine_index :
    (index left some?).hasHardLine = (left.hasHardLine || some?.toList.any hasHardLine) := by
  cases some? <;> simp [index]

@[simp]
theorem hasHardLine_assign (staysOnLine : Bool) :
    (assign staysOnLine left right).hasHardLine = (left.hasHardLine || right.hasHardLine) := by
  unfold assign
  split <;> simp

@[simp]
theorem hasHardLine_operation (op : String) :
    (operation left op right).hasHardLine = (left.hasHardLine || right.hasHardLine) := by
  simp [operation]

@[simp]
theorem hasHardLine_binary (op : String) :
    (binary left op right).hasHardLine = (left.hasHardLine || right.hasHardLine) := by
  unfold binary
  split <;> simp

@[simp]
theorem hasHardLine_unary (op : String) : (unary op left).hasHardLine = left.hasHardLine := by
  unfold unary
  split <;> simp

@[simp]
theorem hasHardLine_marked (mark : String) :
    (marked mark some?).hasHardLine = some?.toList.any hasHardLine := by
  cases some? <;> simp [marked]

@[simp]
theorem hasHardLine_argParen : (argParen some?).hasHardLine = some?.toList.any hasHardLine := by
  cases some? <;> simp [argParen]

@[simp]
theorem hasHardLine_call (operator : String) :
    (call left operator right some? items).hasHardLine =
      (left.hasHardLine || right.hasHardLine || some?.toList.any hasHardLine ||
        items.any hasHardLine) := by
  cases some? <;> simp [call, Bool.or_assoc]

@[simp]
theorem hasHardLine_fcall :
    (fcall left some?).hasHardLine = (left.hasHardLine || some?.toList.any hasHardLine) := by
  cases some? <;> simp [fcall]

@[simp]
theorem hasHardLine_blockParams :
    (blockParams some?).hasHardLine = some?.toList.any hasHardLine := by
  cases some? <;> simp [blockParams]

@[simp]
theorem hasHardLine_blockVar : (blockVar some?).hasHardLine = some?.toList.any hasHardLine := by
  cases some? <;> simp [blockVar]

@[simp]
theorem hasHardLine_defaulted (separator : String) :
    (defaulted left separator some?).hasHardLine =
      (left.hasHardLine || some?.toList.any hasHardLine) := by
  cases some? <;> simp [defaulted]

/-- Statements between braces break if there are two or more, or if the line around them does. -/
@[simp]
theorem hasHardLine_braceBlock (hard : Bool) :
    (braceBlock some? (.line hard) items).hasHardLine =
      (some?.toList.any hasHardLine || items.any hasHardLine || decide (2 ≤ items.length) ||
        (!items.isEmpty && hard)) := by
  unfold braceBlock
  cases some? <;> cases items <;> cases hard <;> simp [bracedStmts, Bool.or_assoc]

@[simp]
theorem hasHardLine_lambda (hard : Bool) :
    (lambda some? (.line hard) items).hasHardLine =
      (some?.toList.any hasHardLine || items.any hasHardLine || decide (2 ≤ items.length) ||
        (!items.isEmpty && hard)) := by
  unfold lambda
  cases some? <;> cases items <;> cases hard <;> simp [bracedStmts, lambdaHead, Bool.or_assoc]

end Layout

/-! ## Hard lines of nodes -/

namespace Node

/-- Whether a node has a hard line of its own, besides those of the nodes below it. -/
def breaksLines : Node → Bool
  | .doBlock _ _ _ => true
  | .braceBlock _ _ body | .lambda _ _ body =>
      2 ≤ body.length || body.any hasTrailingComment
  | _ => false

/-- Whether a node stands for whole lines: a program, the body of a block or a clause of it. -/
def isBody (node : Node) : Bool :=
  [Kind.program, .bodyStmt, .rescue].contains node.kind

variable {options : Options} {parents : List Node}

/-- The line around the statements of a block is hard if one of them ends with a comment. -/
theorem hard_of_lineAround {body : List Node} {hard : Bool}
    (around : lineAround body = .line hard) :
    (!body.isEmpty && hard) = body.any hasTrailingComment := by
  unfold lineAround at around
  split at around
  next found =>
    cases around
    cases body with
    | nil => cases found
    | cons first rest => exact found.symm
  next none =>
    cases around
    simpa using none

/-- A node that stands in a line has the hard lines of the nodes right below and its own. -/
theorem hasHardLine_layout_eq {node : Node}
    (kept : options.toProc = false ∨ node.kind ≠ .methodAddBlock)
    (listed : node.kind = .params → node.shaped = true) (inLine : node.isBody = false) :
    (node.layout options parents).hasHardLine =
      (node.breaksLines ||
        node.children.any fun child => (child.layout options (node :: parents)).hasHardLine) := by
  cases node with
  | program | bodyStmt | rescue => cases inLine
  | methodAddBlock pos callee block =>
    have isOff := kept.resolve_right (absurd rfl)
    rw [layout_of_kept options pos callee block parents (.inl isOff)]
    simp [breaksLines, children, fields, Field.toList]
  | params pos required optional rest post keywords keywordRest block =>
    have shaped := listed rfl
    cases rest with
    | none =>
      simp [layout, layoutParams, breaksLines, children, fields, Field.toList, Function.comp_def,
        Option.toList_map, List.any_map, List.any_append]
    | some rest =>
      simp only [Node.shaped, Bool.and_eq_true, Option.all_some] at shaped
      have isRest := shaped.1.1.1.1.2
      cases rest with
      | restParam | excessedComma =>
        simp [layout, layoutParams, breaksLines, children, fields, Field.toList, Function.comp_def,
          Option.toList_map, List.any_map, List.any_append, isRestParam, isExcessedComma]
      | _ => cases isRest
  | lambda pos params body | braceBlock pos params body =>
    obtain ⟨hard, around⟩ := lineAround_eq body
    simp [layout, breaksLines, around, hard_of_lineAround around, children, fields, Field.toList,
      Function.comp_def, Option.toList_map, List.any_map, List.any_append]
    ac_rfl
  | doBlock pos params body => simp [layout, breaksLines, Doc.hardLine]
  | varField pos inner =>
    cases inner <;> simp [layout, breaksLines, children, fields, Field.toList]
  | _ =>
    simp [layout, breaksLines, children, fields, Field.toList, Function.comp_def, Option.toList_map,
      List.any_map, List.any_append, apply_ite Doc.hasHardLine, Bool.or_assoc]

/-- The tests that fields make of nodes that stand in a line, besides that for a kind. -/
def inLineTests : List (Node → Bool) := [
  isName, isVariable, isAssignable, isCallee, isTarget, isMessage true, isMessage false,
  isBlockCall, isBlock, isRest, isExpr, isValue, isListed, isElement, isPart, isRight, isKey,
  isEntry]

/-- The tests that fields make of the nodes they hold, besides that for a kind. -/
def fieldTests : List (Node → Bool) :=
  isStmt :: inLineTests

theorem fieldTests_of_isBody {node : Node} (isBody : node.isBody = true) :
    ∀ test ∈ fieldTests, test node = false := by
  intro test mem
  simp only [fieldTests, inLineTests, List.mem_cons, List.not_mem_nil, or_false] at mem
  cases node with
  | program | bodyStmt | rescue =>
    repeat' obtain rfl | mem := mem
    all_goals rfl
  | _ => cases isBody

/-- Only below a block between `do` and `end` is there a node that stands for whole lines. -/
theorem isBody_of_mem_children {node child : Node} (shaped : node.shaped = true)
    (inLine : node.isBody = false) (noDo : node.kind ≠ .doBlock) (mem : child ∈ node.children) :
    child.isBody = false := by
  by_contra isBody
  rw [Bool.not_eq_false] at isBody
  -- A body fails every test that a field makes, and the two fields that ask for one are excluded.
  have refused := fieldTests_of_isBody isBody
  have unsent (hasArguments : Bool) : child.isMessage hasArguments = false :=
    refused _ (by cases hasArguments <;> simp [fieldTests, inLineTests])
  simp only [fieldTests, inLineTests, List.forall_mem_cons] at refused
  simp only [Node.isBody, List.contains_eq_mem, decide_eq_true_eq, List.mem_cons, List.not_mem_nil,
    or_false] at isBody
  cases node with
  | program | bodyStmt | rescue => cases inLine
  | doBlock => exact noDo rfl
  | name | literal | comment | callShorthand | excessedComma | bare => cases mem
  | _ =>
    clear inLine noDo
    simp only [children, fields, Field.toList, List.flatMap_cons, List.flatMap_nil, List.append_nil,
      List.cons_append, List.nil_append, List.mem_cons, List.mem_append, List.not_mem_nil, or_false,
      Option.mem_toList] at mem
    simp only [Node.shaped, Bool.and_eq_true, List.all_eq_true, Option.all_eq_true,
      Option.any_eq_true, isOfKind, beq_iff_eq] at shaped
    grind

/-- A node that stands in a line has a hard line exactly if it or a node below breaks lines. -/
theorem hasHardLine_layout_of_wellShaped {node : Node} (isOff : options.toProc = false)
    (shaped : node.wellShaped = true) (inLine : node.isBody = false) (parents : List Node) :
    (node.layout options parents).hasHardLine = node.preorder.any breaksLines := by
  induction node using induction_children generalizing parents with
  | step node ih =>
    obtain ⟨here, below⟩ := wellShaped_iff.1 shaped
    rw [hasHardLine_layout_eq (.inl isOff) (fun _ => here) inLine, preorder_eq, List.any_cons,
      List.any_flatMap]
    by_cases isDo : node.kind = .doBlock
    -- Its body stands for whole lines, of which nothing is known, but it breaks lines by itself.
    · cases node with
      | doBlock pos params body => rfl
      | _ => cases isDo
    · congr 1
      rw [Bool.eq_iff_iff, List.any_eq_true, List.any_eq_true]
      refine exists_congr fun child => and_congr_right fun mem => ?_
      rw [ih child mem (below child mem) (isBody_of_mem_children here inLine isDo mem)]

/--
The document of a node that stands in a line has a hard line exactly if the node or one below it is
a block between `do` and `end`, or a block between braces or a lambda with two statements or more or
with a statement that ends with a comment.
-/
theorem hasHardLine_iff_breaksLines {source : String} {tree node : Node} {options : Options}
    (parsed : Node.ofSource source = .ok tree) (mem : node ∈ tree.preorder)
    (inLine : node.isBody = false) (isOff : options.toProc = false) :
    ∃ doc, node.toDoc options = .ok doc ∧
      (doc.hasHardLine = true ↔ ∃ part ∈ node.preorder, part.breaksLines = true) := by
  have shaped : node.wellShaped = true :=
    forall_preorder (fun _ shaped => (wellShaped_iff.1 shaped).2) (wellShaped_of_source parsed)
      node mem
  refine ⟨_, toDoc_of_wellShaped options shaped, ?_⟩
  rw [hasHardLine_layout_of_wellShaped isOff shaped inLine, List.any_eq_true]

/-- A statement that ends with a comment breaks its block, and with it the array around. -/
theorem hasHardLine_array_of_comment :
    let source := "[a, b \x7b |c| c.d # e\n\x7d]"
    ∃ tree node, Node.ofSource source = .ok tree ∧ node ∈ tree.preorder ∧
      node.kind = .array ∧ ∃ doc, node.toDoc {} = .ok doc ∧ doc.hasHardLine = true := by
  intro source
  obtain ⟨tree, parsed, holds⟩ := exists_of_source
    (show (Node.ofSource source).toOption.any (·.preorder.any fun node =>
      node.isOfKind .array && node.preorder.any breaksLines) = true by decide +kernel)
  obtain ⟨node, mem, found⟩ := List.any_eq_true.1 holds
  obtain ⟨isArray, breaks⟩ := Bool.and_eq_true_iff.1 found
  have kind : node.kind = .array := by simpa [isOfKind] using isArray
  obtain ⟨doc, made, told⟩ :=
    hasHardLine_iff_breaksLines parsed mem (by simp [isBody, kind])
      (rfl : ({} : Options).toProc = false)
  exact ⟨tree, node, parsed, mem, kind, doc, made, told.2 (List.any_eq_true.1 breaks)⟩

end Node

end RubyFormat
