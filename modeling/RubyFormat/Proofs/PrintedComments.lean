import RubyFormat.Proofs.Comments
import RubyFormat.Proofs.Forms
import RubyFormat.Proofs.Pragmas

/-!
# Comments are printed

Every comment of a tree is among its marks, once and in its place, and no other mark is a comment.
A comment takes whatever is written behind it on its line.  Where statements stand on lines of their
own this is nothing, and a block between braces whose statements have comments behind them is
broken.  Only a block or a lambda that stays on one line, with a comment for its whole body, is
closed behind the comment.
-/

namespace RubyFormat

namespace Mark

@[simp]
theorem kind_op_ne (text : String) : (op text).kind ≠ .comment :=
  TokenKind.noConfusion

@[simp]
theorem kind_word_ne (text : String) : (word text).kind ≠ .comment :=
  TokenKind.noConfusion

@[simp]
theorem kind_newline_ne : newline.kind ≠ .comment :=
  TokenKind.noConfusion

@[simp]
theorem kind_operator_ne (text : String) : (operator text).kind ≠ .comment := by
  unfold operator
  dsimp only
  split <;> exact TokenKind.noConfusion

@[simp]
theorem tokenKind_name_ne (kind : NameKind) (text : String) : kind.tokenKind text ≠ .comment := by
  cases kind with
  | ident =>
      dsimp only [NameKind.tokenKind]
      split <;> exact TokenKind.noConfusion
  | _ => exact TokenKind.noConfusion

/-! ## The comments among marks -/

/-- The texts of the comments among marks. -/
def comments (marks : List Mark) : List String :=
  (marks.filter fun mark => mark.kind == .comment).map text

@[simp]
theorem comments_nil : comments [] = [] := rfl

@[simp]
theorem comments_append (left right : List Mark) :
    comments (left ++ right) = comments left ++ comments right := by
  simp [comments]

@[simp]
theorem comments_cons_of_kind {mark : Mark} (noComment : mark.kind ≠ .comment) (rest : List Mark) :
    comments (mark :: rest) = comments rest := by
  simp [comments, noComment]

@[simp]
theorem comments_behind (blanks : Nat) (marks : List Mark) :
    comments (behind blanks marks) = comments marks := by
  cases marks <;> simp [behind, comments, List.filter_cons, apply_ite (List.map text)]

@[simp]
theorem comments_breakIf (broken : Bool) : comments (breakIf broken) = [] := by
  cases broken <;> rfl

theorem comments_flatMap {α : Type} (f : α → List Mark) (items : List α) :
    comments (items.flatMap f) = items.flatMap fun item => comments (f item) := by
  simp only [comments, List.map_flatMap, List.filter_flatMap]

@[simp]
theorem comments_trailing (remarks : List (List Mark)) :
    comments (trailing remarks) = remarks.flatMap comments := by
  simp [trailing, comments_flatMap]

/-- Separators have no comments. -/
theorem comments_join {separator : List Mark} (none : comments separator = []) (blanks : Nat)
    (items : List (List Mark)) :
    comments (join separator blanks items) = items.flatMap comments := by
  cases items with
  | nil => rfl
  | cons first rest => simp [join, comments_flatMap, none]

@[simp]
theorem comments_listed (options : Options) (broken : Bool) (level : Nat)
    (items : List (List Mark)) :
    comments (listed options broken level items) = items.flatMap comments :=
  comments_join (by simp) _ items

@[simp]
theorem comments_inLine (items : List (List Mark)) :
    comments (inLine items) = items.flatMap comments :=
  comments_join rfl _ items

@[simp]
theorem comments_stmts (options : Options) (level : Nat) (items : List (List Mark)) :
    comments (stmts options level items) = items.flatMap comments :=
  comments_join rfl _ items

@[simp]
theorem comments_indentedStmts (options : Options) (level : Nat) (items : List (List Mark)) :
    comments (indentedStmts options level items) = items.flatMap comments := by
  unfold indentedStmts
  split
  next empty => simp [List.isEmpty_iff.1 empty]
  next => simp

@[simp]
theorem comments_hanging (options : Options) (broken : Bool) (level : Nat) (part : List Mark) :
    comments (hanging options broken level part) = comments part := by
  simp [hanging]

@[simp]
theorem comments_braced (options : Options) (broken : Bool) (level : Nat) (part : List Mark) :
    comments (braced options broken level part) = comments part := by
  simp [braced]

@[simp]
theorem comments_clause (options : Options) (level : Nat) (text : String)
    (items : List (List Mark)) :
    comments (clause options level text items) = items.flatMap comments := by
  simp [clause]

@[simp]
theorem comments_getD (marks : Option (List Mark)) :
    comments (marks.getD []) = marks.toList.flatMap comments := by
  cases marks <;> simp

end Mark

namespace Node

open Mark

/-- The comments among the marks of a tree are those of the tree, in their order. -/
theorem comments_marks {options : Options} {tree : Node} (isOff : options.toProc = false)
    (shaped : tree.wellShaped = true) (parents : List Node) (level : Nat) :
    Mark.comments (tree.marks options parents level) = tree.comments := by
  induction tree using induction_smaller generalizing parents level with
  | step tree ih =>
    obtain ⟨here, inside⟩ := wellShaped_iff.1 shaped
    have below (parents : List Node) (level : Nat) (child : Node) (mem : child ∈ tree.children) :
        Mark.comments (child.marks options parents level) = child.comments :=
      ih child (sizeOf_lt_of_mem_children mem) (inside child mem) parents level
    have told (level : Nat) : ∀ field ∈ tree.fields,
        (field.2.toList.flatMap fun child =>
          Mark.comments (child.marks options (tree :: parents) level)) =
        field.2.toList.flatMap comments := fun field mem =>
      List.flatMap_congr fun child inside =>
        below (tree :: parents) level child (List.mem_flatMap.2 ⟨field, mem, inside⟩)
    rw [comments_eq]
    clear ih below inside
    cases tree
    all_goals
      simp only [fields, List.forall_mem_cons, List.not_mem_nil, IsEmpty.forall_iff, implies_true,
        and_true, Field.toList, List.flatMap_cons, List.flatMap_nil, List.append_nil] at told
    case comment => rfl
    case literal kind _ _ => cases kind <;> rfl
    case symbolLit pos value =>
      cases value with
      | name kind => cases kind <;> rfl
      | _ => cases here
    case methodAddBlock =>
      simp [marks, extra?, isOff, children, fields, Field.toList, commentText?, told]
    -- the comma that closes a list of parameters is a part without marks of its own
    case params =>
      have closing (pos : Pos) : (Node.excessedComma pos).comments = [] := rfl
      obtain rfl | ⟨restPos, ident, rfl⟩ | ⟨restPos, rfl⟩ := rest_of_shaped here <;>
        simp_all [marks, children, fields, Field.toList, commentText?, List.flatMap_map,
          Option.toList_map, isRestParam, isExcessedComma]
    -- where a part may be absent, the marks depend on whether it is there
    case lambda part body | braceBlock part body =>
      cases part <;> cases body <;>
        simp_all [marks, children, fields, Field.toList, commentText?, List.flatMap_map]
    case hash part | blockVar part =>
      cases part <;>
        simp_all [marks, children, fields, Field.toList, commentText?, List.flatMap_map]
    case bodyStmt elseBody ensure =>
      cases elseBody <;> cases ensure <;>
        simp_all [marks, children, fields, Field.toList, commentText?, List.flatMap_map,
          Option.toList_map]
    all_goals
      simp [marks, children, fields, Field.toList, commentText?, told, List.flatMap_map,
        Option.toList_map, apply_ite Mark.comments]

end Node

/-! ## The ends of lines -/

namespace Mark

/-- Whether marks begin with the end of a line, unless there are none. -/
def startsBreak (marks : List Mark) : Bool :=
  marks.head?.all (·.kind == .newline)

/-- Whether marks end with something other than a comment, unless there are none. -/
def endsClear (marks : List Mark) : Bool :=
  marks.getLast?.all (·.kind != .comment)

/-- Whether behind every comment there is the end of the line, or nothing. -/
def commentsEndLines : List Mark → Bool
  | [] => true
  | mark :: rest => (mark.kind != .comment || startsBreak rest) && commentsEndLines rest

@[simp]
theorem startsBreak_newline (rest : List Mark) : startsBreak (newline :: rest) = true := by
  simp [startsBreak, newline]

@[simp]
theorem startsBreak_append (left right : List Mark) :
    startsBreak (left ++ right) = (startsBreak left && (!left.isEmpty || startsBreak right)) := by
  cases left <;> simp [startsBreak]

@[simp]
theorem endsClear_nil : endsClear [] = true := by
  simp [endsClear]

@[simp]
theorem commentsEndLines_nil : commentsEndLines [] = true := by
  simp [commentsEndLines]

theorem endsClear_cons_cons (mark next : Mark) (rest : List Mark) :
    endsClear (mark :: next :: rest) = endsClear (next :: rest) := by
  rw [endsClear, endsClear, List.getLast?_cons_cons]

@[simp]
theorem endsClear_cons_of_kind {mark : Mark} (noComment : mark.kind ≠ .comment)
    (rest : List Mark) : endsClear (mark :: rest) = endsClear rest := by
  cases rest with
  | nil => simpa [endsClear] using noComment
  | cons next rest => exact endsClear_cons_cons mark next rest

@[simp]
theorem endsClear_append (left right : List Mark) :
    endsClear (left ++ right) = (endsClear right && (!right.isEmpty || endsClear left)) := by
  cases right with
  | nil => simp
  | cons mark rest => simp [endsClear, List.getLast?_append, List.getLast?_cons]

@[simp]
theorem endsClear_behind (blanks : Nat) (marks : List Mark) :
    endsClear (behind blanks marks) = endsClear marks := by
  match marks with
  | [] | [mark] | mark :: next :: rest => rfl

/-- Two parts can be looked at one by one, unless the second runs on behind a comment. -/
theorem commentsEndLines_append {left right : List Mark}
    (apart : endsClear left = true ∨ startsBreak right = true) :
    commentsEndLines (left ++ right) = (commentsEndLines left && commentsEndLines right) := by
  induction left with
  | nil => rfl
  | cons mark rest ih =>
    cases rest with
    | nil =>
      have ends : (mark.kind != .comment || startsBreak right) = true := by
        rwa [Bool.or_eq_true]
      rw [List.singleton_append, commentsEndLines, ends]
      simp [commentsEndLines, startsBreak]
    | cons next rest =>
      rw [endsClear_cons_cons] at apart
      change (_ && commentsEndLines (next :: rest ++ right)) = (_ && _ && _)
      rw [ih apart, ← Bool.and_assoc]
      rfl

@[simp]
theorem commentsEndLines_append_of_clear {left : List Mark} (clear : endsClear left = true)
    (right : List Mark) :
    commentsEndLines (left ++ right) = (commentsEndLines left && commentsEndLines right) :=
  commentsEndLines_append (.inl clear)

@[simp]
theorem commentsEndLines_append_of_break {right : List Mark} (breaks : startsBreak right = true)
    (left : List Mark) :
    commentsEndLines (left ++ right) = (commentsEndLines left && commentsEndLines right) :=
  commentsEndLines_append (.inr breaks)

@[simp]
theorem commentsEndLines_cons_of_kind {mark : Mark} (noComment : mark.kind ≠ .comment)
    (rest : List Mark) : commentsEndLines (mark :: rest) = commentsEndLines rest := by
  simp [commentsEndLines, noComment]

@[simp]
theorem commentsEndLines_behind (blanks : Nat) (marks : List Mark) :
    commentsEndLines (behind blanks marks) = commentsEndLines marks := by
  cases marks <;> rfl

@[simp]
theorem startsBreak_getD (marks : Option (List Mark)) :
    startsBreak (marks.getD []) = marks.toList.all startsBreak := by
  cases marks <;> simp [startsBreak]

@[simp]
theorem endsClear_getD (marks : Option (List Mark)) :
    endsClear (marks.getD []) = marks.toList.all endsClear := by
  cases marks <;> simp

@[simp]
theorem commentsEndLines_getD (marks : Option (List Mark)) :
    commentsEndLines (marks.getD []) = marks.toList.all commentsEndLines := by
  cases marks <;> simp

@[simp]
theorem endsClear_breakIf (broken : Bool) : endsClear (breakIf broken) = true := by
  cases broken <;> rfl

@[simp]
theorem startsBreak_breakIf (broken : Bool) : startsBreak (breakIf broken) = true := by
  cases broken <;> rfl

@[simp]
theorem commentsEndLines_breakIf (broken : Bool) : commentsEndLines (breakIf broken) = true := by
  cases broken <;> rfl

/-- Parts with a separator between them end with the last of them. -/
theorem endsClear_join {separator : List Mark} (clear : endsClear separator = true) (blanks : Nat)
    {items : List (List Mark)} (each : items.all endsClear = true) :
    endsClear (join separator blanks items) = true := by
  cases items with
  | nil => rfl
  | cons first rest =>
    rw [List.all_cons, Bool.and_eq_true] at each
    have others : endsClear (rest.flatMap fun part => separator ++ behind blanks part) = true := by
      replace each := each.2
      induction rest with
      | nil => rfl
      | cons next rest ih =>
        rw [List.all_cons, Bool.and_eq_true] at each
        simp [clear, each.1, ih each.2]
    simp [join, each.1, others]

/-- Parts can be looked at one by one, if the separator breaks lines or none ends with a comment. -/
theorem commentsEndLines_join {separator : List Mark} (clear : endsClear separator = true)
    (ends : commentsEndLines separator = true) (blanks : Nat) {items : List (List Mark)}
    (apart : items.all endsClear = true ∨ separator.head? = some newline) :
    commentsEndLines (join separator blanks items) = items.all commentsEndLines := by
  have breaks (isBreak : separator.head? = some newline) (rest : List (List Mark)) :
      startsBreak (rest.flatMap fun part => separator ++ behind blanks part) = true := by
    cases rest <;> simp [startsBreak, List.head?_append, isBreak, newline]
  cases items with
  | nil => rfl
  | cons first rest =>
    rw [List.all_cons, Bool.and_eq_true] at apart
    rw [join, commentsEndLines_append (apart.imp And.left (breaks · rest)), List.all_cons]
    congr 1
    induction rest with
    | nil => rfl
    | cons next rest ih =>
      rw [List.all_cons, Bool.and_eq_true] at apart
      have later := ih (apart.imp_left fun each => ⟨each.1, each.2.2⟩)
      have parted : endsClear (separator ++ behind blanks next) = true ∨ startsBreak
          (rest.flatMap fun part => separator ++ behind blanks part) = true :=
        apart.imp (fun each => by simp [clear, each.2.1]) (breaks · rest)
      rw [List.flatMap_cons, commentsEndLines_append parted, later]
      simp [clear, ends]

@[simp]
theorem endsClear_listed (options : Options) (broken : Bool) (level : Nat)
    {items : List (List Mark)} (each : items.all endsClear = true) :
    endsClear (listed options broken level items) = true :=
  endsClear_join (by simp) _ each

@[simp]
theorem commentsEndLines_listed (options : Options) (broken : Bool) (level : Nat)
    {items : List (List Mark)} (each : items.all endsClear = true) :
    commentsEndLines (listed options broken level items) = items.all commentsEndLines :=
  commentsEndLines_join (by simp) (by simp) _ (.inl each)

@[simp]
theorem endsClear_inLine {items : List (List Mark)} (each : items.all endsClear = true) :
    endsClear (inLine items) = true :=
  endsClear_join rfl _ each

@[simp]
theorem commentsEndLines_inLine {items : List (List Mark)} (each : items.all endsClear = true) :
    commentsEndLines (inLine items) = items.all commentsEndLines :=
  commentsEndLines_join rfl rfl _ (.inl each)

@[simp]
theorem commentsEndLines_stmts (options : Options) (level : Nat) (items : List (List Mark)) :
    commentsEndLines (stmts options level items) = items.all commentsEndLines :=
  commentsEndLines_join rfl rfl _ (.inr rfl)

@[simp]
theorem commentsEndLines_indentedStmts (options : Options) (level : Nat)
    (items : List (List Mark)) :
    commentsEndLines (indentedStmts options level items) = items.all commentsEndLines := by
  unfold indentedStmts
  split
  next empty => simp [List.isEmpty_iff.1 empty]
  next => simp

@[simp]
theorem endsClear_hanging (options : Options) (broken : Bool) (level : Nat) {part : List Mark}
    (clear : endsClear part = true) : endsClear (hanging options broken level part) = true := by
  simp [hanging, clear]

@[simp]
theorem commentsEndLines_hanging (options : Options) (broken : Bool) (level : Nat)
    (part : List Mark) :
    commentsEndLines (hanging options broken level part) = commentsEndLines part := by
  simp [hanging]

@[simp]
theorem endsClear_braced (options : Options) (broken : Bool) (level : Nat) (part : List Mark) :
    endsClear (braced options broken level part) = true := by
  cases broken <;> simp [braced, hanging, breakIf, behind]

/-- The brace that closes a part does not run on behind a comment where lines are broken. -/
theorem commentsEndLines_braced {options : Options} {broken : Bool} {part : List Mark}
    (apart : endsClear part = true ∨ broken = true) (level : Nat) :
    commentsEndLines (braced options broken level part) = commentsEndLines part := by
  obtain clear | rfl := apart
  · simp [braced, clear]
  · simp [braced, hanging, breakIf]

/-- A comment behind another one would stand in its line. -/
theorem commentsEndLines_trailing {remarks : List (List Mark)} (single : remarks.length ≤ 1) :
    commentsEndLines (trailing remarks) = remarks.all commentsEndLines := by
  match remarks with
  | [] => rfl
  | [remark] => simp [trailing]
  | _ :: _ :: _ => simp at single

@[simp]
theorem startsBreak_clause (options : Options) (level : Nat) (text : String)
    (items : List (List Mark)) : startsBreak (clause options level text items) = true := by
  simp [clause]

@[simp]
theorem commentsEndLines_clause (options : Options) (level : Nat) (text : String)
    (items : List (List Mark)) :
    commentsEndLines (clause options level text items) = items.all commentsEndLines := by
  simp [clause]

end Mark

namespace Node

open Mark

/-- Whether the marks of a node may end with a comment, so that a line has to end behind it. -/
def endsLine (node : Node) : Bool :=
  node.isBody || node.isOfKind .comment || node.hasTrailingComment

/-- Whether a body is no more than a comment, and its parameters do not break it. -/
def isBareComment (parameters : Option Node) : List Node → Bool
  | [.comment _ _] => !parameters.toList.any (·.preorder.any breaksLines)
  | _ => false

/-- Whether a node stays on its line and closes behind a comment, which is all that it holds. -/
def enclosesComment : Node → Bool
  | .braceBlock _ parameters body | .lambda _ parameters body => isBareComment parameters body
  | _ => false

/-- Whether no node of a tree closes behind a comment. -/
def freesComments : Node → Bool :=
  everywhere fun node => !node.enclosesComment

theorem freesComments_eq (node : Node) :
    node.freesComments = (!node.enclosesComment && node.children.all freesComments) := by
  rw [Bool.eq_iff_iff, Bool.and_eq_true, List.all_eq_true]
  exact everywhere_iff

/-- The fields whose nodes may end a line, each with the kind of its node. -/
def lineFields : List (Kind × String) :=
  stmtFields ++ [
    (.commented, "comments"), (.call, "comments"), (.bodyStmt, "rescue"), (.rescue, "next"),
    (.doBlock, "body")]

theorem inLineTests_of_endsLine {node : Node} (ends : node.endsLine = true) :
    ∀ test ∈ inLineTests, test node = false := by
  intro test mem
  simp only [inLineTests, List.mem_cons, List.not_mem_nil, or_false] at mem
  cases node with
  | program | bodyStmt | rescue | comment | commented =>
    repeat' obtain rfl | mem := mem
    all_goals rfl
  | call pos receiver operator message arguments comments =>
    cases comments with
    | nil => cases ends
    | cons =>
      repeat' obtain rfl | mem := mem
      all_goals rfl
  | _ => cases ends

theorem kind_of_endsLine {node : Node} (ends : node.endsLine = true) :
    node.kind ∈ [Kind.program, .bodyStmt, .rescue, .comment, .commented, .call] := by
  cases node with
  | program | bodyStmt | rescue | comment | commented | call => simp [kind]
  | _ => cases ends

/-- Outside the fields that are made for it, no node ends a line. -/
theorem endsLine_of_field {node child : Node} {field : String × Field Node}
    (shaped : node.shaped = true) (held : field ∈ node.fields)
    (inLine : (node.kind, field.1) ∉ lineFields) (mem : child ∈ field.2.toList) :
    child.endsLine = false := by
  by_contra ends
  rw [Bool.not_eq_false] at ends
  have refused := inLineTests_of_endsLine ends
  have kind := kind_of_endsLine ends
  have unsent (hasArguments : Bool) : child.isMessage hasArguments = false :=
    refused _ (by cases hasArguments <;> simp [inLineTests])
  simp only [inLineTests, List.forall_mem_cons] at refused
  cases node with
  | name | literal | comment | callShorthand | excessedComma | bare =>
    simp_all [fields, Field.toList]
  | _ =>
    simp only [fields, List.mem_cons, List.not_mem_nil, or_false] at held
    simp only [Node.shaped, Bool.and_eq_true, List.all_eq_true, Option.all_eq_true,
      Option.any_eq_true, isOfKind, beq_iff_eq] at shaped
    simp only [lineFields, stmtFields, Node.kind] at inLine
    grind [Field.toList]

/-- A node that stands in a line does not end with a comment. -/
theorem endsClear_marks {options : Options} {tree : Node} (isOff : options.toProc = false)
    (shaped : tree.wellShaped = true) (inLine : tree.endsLine = false) (parents : List Node)
    (level : Nat) : endsClear (tree.marks options parents level) = true := by
  induction tree using induction_smaller generalizing parents level with
  | step tree ih =>
    obtain ⟨here, inside⟩ := wellShaped_iff.1 shaped
    have told (level : Nat) : ∀ field ∈ tree.fields, (tree.kind, field.1) ∉ lineFields →
        (field.2.toList.all fun child =>
          endsClear (child.marks options (tree :: parents) level)) = true := by
      intro field held stands
      refine List.all_eq_true.2 fun child mem => ?_
      have below : child ∈ tree.children := List.mem_flatMap.2 ⟨field, held, mem⟩
      exact ih child (sizeOf_lt_of_mem_children below) (inside child below)
        (endsLine_of_field here held stands mem) (tree :: parents) level
    clear ih inside shaped
    cases tree
    case program | bodyStmt | rescue | comment | commented => cases inLine
    case literal kind _ _ => cases kind <;> rfl
    all_goals
      simp [fields, Field.toList, kind, lineFields, stmtFields, -List.all_eq_true] at told
    case lambda part _ | blockVar part =>
      cases part <;> simp_all [marks, apply_ite endsClear, behind]
    case call comments =>
      cases comments with
      | nil =>
        simp [marks, trailing, told, Option.toList_map, List.all_map, Function.comp_def,
          -List.all_eq_true]
      | cons => cases inLine
    case methodAddBlock => simp [marks, extra?, isOff, told]
    case params =>
      obtain rfl | ⟨restPos, ident, rfl⟩ | ⟨restPos, rfl⟩ := rest_of_shaped here <;>
        simp_all [marks, Option.toList_map, List.all_map, Function.comp_def, isRestParam,
          isExcessedComma, -List.all_eq_true]
    all_goals
      simp [marks, told, List.all_map, Option.toList_map, Function.comp_def, apply_ite endsClear,
        -List.all_eq_true]

/-- The nodes in a field that is not made for the ends of lines do not end with a comment. -/
theorem endsClear_of_field {options : Options} {tree : Node} {field : String × Field Node}
    (isOff : options.toProc = false) (shaped : tree.wellShaped = true) (held : field ∈ tree.fields)
    (inLine : (tree.kind, field.1) ∉ lineFields) (parents : List Node) (level : Nat) :
    (field.2.toList.all fun child => endsClear (child.marks options parents level)) = true := by
  obtain ⟨here, inside⟩ := wellShaped_iff.1 shaped
  exact List.all_eq_true.2 fun child mem =>
    endsClear_marks isOff (inside child (List.mem_flatMap.2 ⟨field, held, mem⟩))
      (endsLine_of_field here held inLine mem) parents level

/-- A handler begins on a line of its own. -/
theorem startsBreak_handler {handler : Option Node}
    (isRescue : handler.all (isOfKind .rescue) = true) (options : Options) (parents : List Node)
    (level : Nat) :
    (handler.toList.all fun node => startsBreak (node.marks options parents level)) = true := by
  cases handler with
  | none => rfl
  | some node =>
    cases node with
    | rescue => simp [marks]
    | _ => cases isRescue

/-- Whether a body between braces has to break. -/
def breaksBraces (parameters : Option Node) (body : List Node) : Bool :=
  (2 ≤ body.length || body.any hasTrailingComment) ||
    (parameters.toList ++ body).any (·.preorder.any breaksLines)

/-- A body between braces keeps its comments from the closing brace, unless it is a comment. -/
theorem commentsEndLines_body {options : Options} {body : List Node} {parents : List Node}
    (parameters : Option Node) (level : Nat) (stmts : body.all isStmt = true)
    (clear : ∀ stmt ∈ body, stmt.endsLine = false →
      endsClear (stmt.marks options parents (level + 1)) = true) :
    commentsEndLines (braced options (breaksBraces parameters body) level
        (Mark.stmts options (level + 1) (body.map (marks options parents (level + 1))))) =
      (!isBareComment parameters body &&
        body.all fun stmt => commentsEndLines (stmt.marks options parents (level + 1))) := by
  cases broken : breaksBraces parameters body with
  | true =>
    have noComment : isBareComment parameters body = false := by
      unfold isBareComment
      split
      next pos text =>
        have noBreak : (comment pos text).preorder.any breaksLines = false := rfl
        simpa [breaksBraces, hasTrailingComment, noBreak, -List.any_eq_true] using broken
      next => rfl
    rw [commentsEndLines_braced (.inr rfl), noComment]
    simp [List.all_map, Function.comp_def]
  | false =>
    simp only [breaksBraces, Bool.or_eq_false_iff, decide_eq_false_iff_not,
      List.any_append] at broken
    match body with
    | [] => simp [commentsEndLines_braced, isBareComment, Mark.stmts, join]
    | [stmt] =>
      have isStmt : stmt.isStmt = true := by simpa using stmts
      have noRemark : stmt.hasTrailingComment = false := by simpa using broken.1.2
      have single : Mark.stmts options (level + 1)
          ([stmt].map (marks options parents (level + 1))) =
            stmt.marks options parents (level + 1) := by
        simp [Mark.stmts, join]
      rw [single]
      cases isComment : stmt.isOfKind .comment with
      | true =>
        cases stmt with
        | comment pos text =>
          simp [isBareComment, broken.2, marks, braced, hanging, breakIf, behind, commentsEndLines,
            startsBreak, op, -List.any_eq_true]
        | _ => cases isComment
      | false =>
        have inLine : stmt.endsLine = false := by
          cases stmt <;> simp_all [endsLine, isBody, Node.isStmt, kind, isValue, isExpr]
        rw [commentsEndLines_braced (.inl (clear stmt (List.mem_singleton_self _) inLine))]
        cases stmt with
        | comment => cases isComment
        | _ => simp [isBareComment]
    | _ :: _ :: _ => simp at broken

theorem isBroken_eq_breaksBraces {options : Options} {node : Node} {parameters : Option Node}
    {body : List Node} (isOff : options.toProc = false) (shaped : node.wellShaped = true)
    (braces : ∃ pos, node = .lambda pos parameters body ∨ node = .braceBlock pos parameters body)
    (parents : List Node) : node.isBroken options parents = breaksBraces parameters body := by
  obtain ⟨pos, rfl | rfl⟩ := braces
  all_goals
    rw [isBroken, hasHardLine_layout_of_wellShaped isOff shaped rfl, preorder_eq, List.any_cons,
      List.any_flatMap]
    simp [breaksBraces, breaksLines, children, fields, Field.toList]

/-- Every comment of a tree ends its line exactly if no node closes behind a comment. -/
theorem commentsEndLines_marks {options : Options} {tree : Node} (isOff : options.toProc = false)
    (shaped : tree.wellShaped = true) (documented : tree.everywhere documented = true)
    (parents : List Node) (level : Nat) :
    commentsEndLines (tree.marks options parents level) = tree.freesComments := by
  induction tree using induction_smaller generalizing parents level with
  | step tree ih =>
    obtain ⟨here, inside⟩ := wellShaped_iff.1 shaped
    obtain ⟨documentedHere, documentedInside⟩ := everywhere_iff.1 documented
    have formed := (Bool.and_eq_true_iff.1 documentedHere).1
    have told (level : Nat) : ∀ field ∈ tree.fields,
        (field.2.toList.all fun child =>
          commentsEndLines (child.marks options (tree :: parents) level)) =
        field.2.toList.all freesComments := by
      intro field held
      rw [Bool.eq_iff_iff, List.all_eq_true, List.all_eq_true]
      refine forall₂_congr fun child mem => ?_
      have below : child ∈ tree.children := List.mem_flatMap.2 ⟨field, held, mem⟩
      rw [ih child (sizeOf_lt_of_mem_children below) (inside child below)
        (documentedInside child below) (tree :: parents) level]
    have clear (level : Nat) : ∀ field ∈ tree.fields, (tree.kind, field.1) ∉ lineFields →
        (field.2.toList.all fun child =>
          endsClear (child.marks options (tree :: parents) level)) = true :=
      fun field held inLine =>
        endsClear_of_field isOff shaped held inLine (tree :: parents) level
    have clearStmt (level : Nat) (child : Node) (below : child ∈ tree.children) :
        child.endsLine = false → endsClear (child.marks options (tree :: parents) level) = true :=
      fun inLine => endsClear_marks isOff (inside child below) inLine (tree :: parents) level
    rw [freesComments_eq]
    clear ih inside documentedInside documentedHere documented
    cases tree
    case comment => rfl
    case literal kind _ _ => cases kind <;> rfl
    all_goals
      simp [fields, Field.toList, kind, lineFields, stmtFields, -List.all_eq_true] at told clear
    case symbolLit value =>
      cases value with
      | name kind => cases kind <;> rfl
      | _ => cases here
    case commented comments | call comments =>
      have single : comments.length ≤ 1 := by simp_all [Node.formed]
      simp [marks, commentsEndLines_trailing, single, told, clear, children, fields, Field.toList,
        enclosesComment, List.all_map, Option.toList_map, Function.comp_def, -List.all_eq_true]
    case hash assocs =>
      cases assocs <;>
        simp_all [marks, commentsEndLines_braced, children, fields, Field.toList, enclosesComment,
          List.all_map, Function.comp_def, -List.all_eq_true]
    case methodAddBlock =>
      simp [marks, extra?, isOff, told, clear, children, fields, Field.toList, enclosesComment]
    case params =>
      have closing (pos : Pos) : (Node.excessedComma pos).freesComments = true := rfl
      obtain rfl | ⟨restPos, ident, rfl⟩ | ⟨restPos, rfl⟩ := rest_of_shaped here <;>
        simp_all [marks, children, fields, Field.toList, enclosesComment, Option.toList_map,
          List.all_map, Function.comp_def, isRestParam, isExcessedComma, -List.all_eq_true]
    case blockVar part =>
      cases part <;> simp_all [marks, children, fields, Field.toList, enclosesComment]
    case lambda pos parameters body | braceBlock pos parameters body =>
      have braces := commentsEndLines_body parameters level (Bool.and_eq_true_iff.1 here).2
        fun stmt mem => clearStmt (level + 1) stmt (by simp [children, fields, Field.toList, mem])
      rw [← isBroken_eq_breaksBraces isOff shaped ⟨pos, by simp⟩ parents] at braces
      cases parameters <;> cases body <;>
        simp_all [marks, children, fields, Field.toList, enclosesComment, isBareComment,
          Bool.and_left_comm]
    case rescue next =>
      have isRescue : next.all (isOfKind .rescue) = true := by simp_all [Node.shaped]
      have opens := startsBreak_handler isRescue options
      simp [marks, told, clear, opens, children, fields, Field.toList, enclosesComment,
        List.all_map, Option.toList_map, Function.comp_def, -List.all_eq_true]
    case bodyStmt handler elseBody ensure =>
      have isRescue : handler.all (isOfKind .rescue) = true := by simp_all [Node.shaped]
      have opens := startsBreak_handler isRescue options
      cases elseBody <;> cases ensure <;>
        simp_all [marks, children, fields, Field.toList, enclosesComment, List.all_map,
          Option.toList_map, Function.comp_def, -List.all_eq_true]
    all_goals
      simp [marks, told, clear, children, fields, Field.toList, enclosesComment, List.all_map,
        Option.toList_map, Function.comp_def, apply_ite commentsEndLines, apply_ite endsClear,
        -List.all_eq_true]

end Node

/-! ## The printed text -/

/-- What is written for a source are the marks of its tree. -/
theorem Node.written_of_format {options : Options} {source text : String} {tree : Node}
    (formatted : format options source = .ok text)
    (formats : (Pragmas.ofSource source).skip = false) (parsed : Node.ofSource source = .ok tree) :
    text.toList = Mark.written (tree.marks ((Pragmas.ofSource source).apply options) [] 0) := by
  have shaped := wellShaped_of_source parsed
  obtain ⟨tokens, -, ran⟩ := tokens_of_source parsed
  obtain ⟨s, reads⟩ := Reads.of_parse ran
  cases reads with
  | program =>
      rw [chars_of_format formatted formats parsed]
      exact @chars_layout ((Pragmas.ofSource source).apply options) _ shaped [] 0 true
        Bool.noConfusion fun _ => rfl

end RubyFormat
