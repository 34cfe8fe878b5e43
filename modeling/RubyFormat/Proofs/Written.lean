import RubyFormat.Doc.Render
import RubyFormat.Proofs.Marks
import RubyFormat.Proofs.Shape

/-!
# The text of a tree is that of its marks

A document is written without its lines being trimmed, piece by piece.  What is written is the text
of the marks of the tree, and rendering trims nothing away if no line of it ends with white space.
-/

namespace RubyFormat

/-- The characters that a piece stands for. -/
def Piece.chars (width : Int) : Piece → List Char
  | .text value => value.toList
  | .newline level => '\n' :: List.replicate (width * level).toNat ' '

namespace Doc

/-- The characters of a document at a depth, within a broken or a flat group. -/
def chars (width : Int) (level : Nat) (broken : Bool) (doc : Doc) : List Char :=
  (doc.pieces level broken).flatMap (Piece.chars width)

section Constructs

variable (width : Int) (level : Nat) (broken : Bool)

@[simp]
theorem chars_text (value : String) : (Doc.text value).chars width level broken = value.toList :=
  List.flatMap_singleton _ _

@[simp]
theorem chars_concat (parts : List Doc) :
    (Doc.concat parts).chars width level broken = parts.flatMap (chars width level broken) := by
  simp [chars, pieces, List.flatMap_assoc]
  rfl

@[simp]
theorem chars_group (contents : Doc) :
    (Doc.group contents).chars width level broken = contents.chars width level contents.hasHardLine :=
  rfl

@[simp]
theorem chars_indent (contents : Doc) :
    (Doc.indent contents).chars width level broken = contents.chars width (level + 1) broken :=
  rfl

@[simp]
theorem chars_line (hard : Bool) :
    (Doc.line hard).chars width level broken =
      if hard || broken then '\n' :: List.replicate (width * level).toNat ' ' else [' '] := by
  cases hard <;> cases broken <;> exact List.flatMap_singleton _ _

end Constructs

end Doc

/-! ## The characters of marks -/

namespace Mark

/-- The characters of marks in a row. -/
def written (marks : List Mark) : List Char :=
  marks.flatMap chars

/-- There are marks, and the first has no blanks before it. -/
def Flush (marks : List Mark) : Prop :=
  ∃ first rest, marks = first :: rest ∧ first.blanks = 0

@[simp]
theorem written_nil : written [] = [] := rfl

@[simp]
theorem written_cons (mark : Mark) (rest : List Mark) :
    written (mark :: rest) = mark.chars ++ written rest := rfl

@[simp]
theorem written_append (left right : List Mark) :
    written (left ++ right) = written left ++ written right :=
  List.flatMap_append

@[simp]
theorem chars_op (text : String) : (op text).chars = text.toList := rfl

@[simp]
theorem chars_word (text : String) : (word text).chars = text.toList := rfl

@[simp]
theorem chars_operator (text : String) : (operator text).chars = text.toList := by
  unfold operator chars spelling
  split <;> simp_all

@[simp]
theorem chars_name (kind : NameKind) (text : String) :
    (Mark.mk 0 (kind.tokenKind text) text).chars = text.toList := by
  unfold NameKind.tokenKind
  split
  · split <;> rfl
  all_goals rfl

@[simp]
theorem chars_literal (kind : LiteralKind) (raw : String) :
    (Mark.mk 0 kind.tokenKind raw).chars = raw.toList := by
  cases kind <;> rfl

@[simp]
theorem chars_comment (text : String) : (Mark.mk 0 .comment text).chars = text.toList := rfl

@[simp]
theorem chars_symbol (text : String) : (Mark.mk 0 .symbol text).chars = ':' :: text.toList := rfl

@[simp]
theorem chars_newline : newline.chars = ['\n'] := rfl

@[simp]
theorem behind_nil (blanks : Nat) : behind blanks [] = [] := rfl

theorem flush_cons {mark : Mark} {rest : List Mark} (none : mark.blanks = 0) :
    Flush (mark :: rest) :=
  ⟨mark, rest, rfl, none⟩

theorem Flush.append {marks : List Mark} (flush : Flush marks) (more : List Mark) :
    Flush (marks ++ more) := by
  obtain ⟨first, rest, rfl, none⟩ := flush
  exact flush_cons none

theorem Flush.written_behind {marks : List Mark} (flush : Flush marks) (blanks : Nat) :
    written (behind blanks marks) = List.replicate blanks ' ' ++ written marks := by
  obtain ⟨first, rest, rfl, none⟩ := flush
  simp [behind, chars, spelling, none]

theorem Flush.join {separator : List Mark} {blanks : Nat} {first : List Mark}
    {rest : List (List Mark)} (flush : Flush first) : Flush (join separator blanks (first :: rest)) :=
  flush.append _

end Mark

namespace Node

/-- The rest parameter of a list is one, or the comma that closes the list. -/
theorem rest_of_shaped {pos : Pos} {required optional post keywords : List Node}
    {rest keywordRest block : Option Node}
    (shaped :
      (Node.params pos required optional rest post keywords keywordRest block).shaped = true) :
    rest = none ∨ (∃ pos ident, rest = some (.restParam pos ident)) ∨
      ∃ pos, rest = some (.excessedComma pos) := by
  simp only [Node.shaped, Bool.and_eq_true] at shaped
  have isRest := shaped.1.1.1.1.2
  cases rest with
  | none => exact .inl rfl
  | some rest =>
    cases rest with
    | restParam pos ident => exact .inr (.inl ⟨pos, ident, rfl⟩)
    | excessedComma pos => exact .inr (.inr ⟨pos, rfl⟩)
    | _ => cases isRest

theorem layout_params {options : Options} {parents : List Node} {tree : Node}
    (isParams : tree.isOfKind .params = true) (shaped : tree.shaped = true) :
    tree.layout options parents =
      if tree.hasExcessedComma then
        .concat [Doc.join ", " (tree.ordered.map (layout options (tree :: parents))), ","]
      else Doc.join ", " (tree.ordered.map (layout options (tree :: parents))) := by
  cases tree with
  | params pos required optional rest post keywords keywordRest block =>
    obtain rfl | ⟨restPos, ident, rfl⟩ | ⟨restPos, rfl⟩ := rest_of_shaped shaped <;>
      simp [layout, layoutParams, hasExcessedComma, ordered, Option.toList_map, isRestParam,
        isExcessedComma]
  | _ => cases isParams

theorem marks_params {options : Options} {parents : List Node} {level : Nat} {tree : Node}
    (isParams : tree.isOfKind .params = true) (shaped : tree.shaped = true) :
    tree.marks options parents level =
      Mark.inLine (tree.ordered.map (marks options (tree :: parents) level)) ++
        if tree.hasExcessedComma then [Mark.op ","] else [] := by
  cases tree with
  | params pos required optional rest post keywords keywordRest block =>
    obtain rfl | ⟨restPos, ident, rfl⟩ | ⟨restPos, rfl⟩ := rest_of_shaped shaped <;>
      simp [marks, hasExcessedComma, ordered, Option.toList_map, isRestParam, isExcessedComma]
  | _ => cases isParams

/-- The kinds of the parameters in a list. -/
def paramKinds : List Kind := [
  .name .ident, .optionalParam, .restParam, .keywordParam, .keywordRestParam, .blockParam]

theorem isParam_of_isOfKind {node : Node} {kind : Kind} (isKind : node.isOfKind kind = true)
    (isParam : kind ∈ paramKinds) : node.isParam = true := by
  have same : node.kind = kind := by simpa [isOfKind] using isKind
  subst same
  cases node with
  | name kind pos text =>
    cases kind with
    | ident => rfl
    | _ => simp [paramKinds, Node.kind] at isParam
  | _ => first | rfl | simp [paramKinds, Node.kind] at isParam

/-- The parameters of a list are children of its node, each of a kind of its own. -/
theorem ordered_shaped {tree : Node} (shaped : tree.shaped = true) {param : Node}
    (mem : param ∈ tree.ordered) : param ∈ tree.children ∧ param.isParam = true := by
  cases tree with
  | params pos required optional rest post keywords keywordRest block =>
    simp only [Node.shaped, Bool.and_eq_true, List.all_eq_true, Option.all_eq_true] at shaped
    obtain ⟨⟨⟨⟨⟨⟨isName, isOptional⟩, isRest⟩, isPost⟩, isKeyword⟩, isKeywordRest⟩, isBlock⟩ := shaped
    simp only [ordered, List.mem_append, Option.mem_toList] at mem
    simp only [children, fields, Field.toList, List.flatMap_cons, List.mem_append, Option.mem_toList,
      List.flatMap_nil, List.not_mem_nil, or_false]
    obtain (((((mem | mem) | mem) | mem) | mem) | mem) | mem := mem
    · exact ⟨.inl mem, isParam_of_isOfKind (isName _ mem) (by decide)⟩
    · exact ⟨.inr (.inl mem), isParam_of_isOfKind (isOptional _ mem) (by decide)⟩
    · split at mem
      next plain =>
        rw [Option.mem_toList] at mem
        refine ⟨.inr (.inr (.inl mem)), ?_⟩
        rw [Option.mem_def.1 mem] at plain
        cases param with
        | restParam => rfl
        | _ => cases plain
      · cases mem
    · exact ⟨.inr (.inr (.inr (.inl mem))), isParam_of_isOfKind (isPost _ mem) (by decide)⟩
    · exact ⟨.inr (.inr (.inr (.inr (.inl mem)))),
        isParam_of_isOfKind (isKeyword _ mem) (by decide)⟩
    · exact ⟨.inr (.inr (.inr (.inr (.inr (.inl mem))))),
        isParam_of_isOfKind (isKeywordRest _ mem) (by decide)⟩
    · exact ⟨.inr (.inr (.inr (.inr (.inr (.inr mem))))),
        isParam_of_isOfKind (isBlock _ mem) (by decide)⟩
  | _ => cases mem

/-- Whether a node always has marks, if it is shaped. -/
def isPrinted : Node → Bool
  | .callShorthand _ | .program _ _ | .params _ _ _ _ _ _ _ _ | .bodyStmt _ _ _ _ _ | .bare _ =>
      false
  | _ => true

/-- Whether a node always has marks and leaves the breaking of its lines to no other node. -/
def isInline (node : Node) : Bool :=
  node.isPrinted && !node.isValueList

theorem isInline_of_isExpr {node : Node} (isExpr : node.isExpr = true) :
    node.isInline = true := by
  cases node <;> first | rfl | cases isExpr

theorem isInline_of_isValue {node : Node} (isValue : node.isValue = true) :
    node.isInline = true := by
  cases node <;> first | rfl | cases isValue

theorem isInline_of_isStmt {node : Node} (isStmt : node.isStmt = true) :
    node.isInline = true := by
  cases node <;> first | rfl | cases isStmt

theorem isInline_of_isListed {node : Node} (isListed : node.isListed = true) :
    node.isInline = true := by
  cases node <;> first | rfl | cases isListed

theorem isInline_of_isPart {node : Node} (isPart : node.isPart = true) :
    node.isInline = true := by
  cases node <;> first | rfl | cases isPart

theorem isInline_of_isKey {node : Node} (isKey : node.isKey = true) : node.isInline = true := by
  cases node <;> first | rfl | cases isKey

theorem isInline_of_isTarget {node : Node} (isTarget : node.isTarget = true) :
    node.isInline = true := by
  cases node <;> first | rfl | cases isTarget

theorem isInline_of_isParam {node : Node} (isParam : node.isParam = true) :
    node.isInline = true := by
  cases node <;> first | rfl | cases isParam

theorem isInline_of_isEntry {node : Node} (isEntry : node.isEntry = true) :
    node.isInline = true := by
  cases node <;> first | rfl | cases isEntry

open Mark

/-- The kinds of node that have no marks of their own or leave the breaking of lines to others. -/
def loose : List Kind := [
  .callShorthand, .program, .params, .bodyStmt, .bare, .valueList, .splatValueList]

theorem isInline_of_isOfKind {node : Node} {kind : Kind} (isKind : node.isOfKind kind = true)
    (isFirm : kind ∉ loose) : node.isInline = true := by
  have same : node.kind = kind := by simpa [isOfKind] using isKind
  subst same
  cases node <;> first | rfl | exact absurd (by simp [loose, Node.kind]) isFirm

theorem isInline_of_isVariable {node : Node} (isVariable : node.isVariable = true) :
    node.isInline = true := by
  cases node <;> first | rfl | cases isVariable

theorem isInline_of_isAssignable {node : Node} (isAssignable : node.isAssignable = true) :
    node.isInline = true := by
  cases node <;> first | rfl | cases isAssignable

theorem isInline_of_isCallee {node : Node} (isCallee : node.isCallee = true) :
    node.isInline = true := by
  cases node <;> first | rfl | cases isCallee

/-- The marks of a call with one more argument start like those of the call. -/
theorem marksWith_flush {options : Options} {callee : Node} {extra : String} {parents : List Node}
    {level : Nat} (isCall : callee.isBlockCall = true) (shaped : callee.shaped = true)
    (flush : Flush (callee.marks options parents level)) :
    Flush (callee.marksWith options parents level extra) := by
  cases callee with
  | call pos receiver operator message args comments =>
    obtain ⟨first, rest, start, none⟩ := flush
    simp only [marks, List.append_assoc, List.cons_append] at start
    simp only [marksWith, List.append_assoc, List.cons_append]
    cases sent : receiver.marks options (.call pos receiver operator message args comments :: parents)
        level with
    | nil => exact flush_cons rfl
    | cons mark more =>
      rw [sent, List.cons_append] at start
      obtain ⟨rfl, -⟩ := List.cons.inj start
      exact flush_cons none
  | fcall pos message args =>
    cases message with
    | name kind namePos text => exact flush_cons rfl
    | _ => cases shaped
  | command pos message args =>
    cases message with
    | name kind namePos text => exact flush_cons rfl
    | _ => cases shaped
  | _ => cases isCall

theorem marks_flush {options : Options} {node : Node} (shaped : node.wellShaped = true)
    (printed : node.isPrinted = true) (parents : List Node) (level : Nat) :
    Flush (node.marks options parents level) := by
  induction node using induction_children generalizing parents with
  | step node ih =>
    obtain ⟨here, inside⟩ := wellShaped_iff.1 shaped
    have below (child : Node) (mem : child ∈ node.children) (isInline : child.isInline = true)
        (parents : List Node) : Flush (child.marks options parents level) :=
      ih child mem (inside child mem) (Bool.and_eq_true_iff.1 isInline).1 parents
    clear ih shaped
    cases node with
    | callShorthand | program | params | bodyStmt | bare => cases printed
    | name | literal | comment | symbolLit | array | hash | lambda | splat | doubleSplat | argParen
    | blockArg | restParam | excessedComma | keywordRestParam | blockParam | rescue | braceBlock
    | doBlock | paren => exact flush_cons rfl
    | blockVar pos params => cases params <;> exact flush_cons rfl
    | unary pos op operand =>
      simp only [marks]
      split <;> exact flush_cons rfl
    | methodAddBlock pos callee block =>
      have isCall := (Bool.and_eq_true_iff.1 here).1
      have mem : callee ∈ (Node.methodAddBlock pos callee block).children := by
        simp [children, fields, Field.toList]
      have first := below callee mem (isInline_of_isExpr (isExpr_of_isBlockCall isCall))
      simp only [marks]
      split
      · exact marksWith_flush isCall (wellShaped_iff.1 (inside callee mem)).1 (first _)
      · exact (first _).append _
    | varField pos inner =>
      cases inner with
      | none => cases here
      | some inner =>
        exact below inner (by simp [children, fields, Field.toList])
          (isInline_of_isAssignable here) _
    | bareAssocHash pos nodes | valueList pos nodes | splatValueList pos nodes | args pos nodes =>
      cases nodes with
      | nil => cases here
      | cons first rest =>
        simp only [shaped, Bool.and_eq_true, List.all_cons] at here
        refine (below first (by simp [children, fields, Field.toList]) ?_ _).join
        first
        | exact isInline_of_isEntry here.2.1
        | exact isInline_of_isListed here.2.1
        | exact isInline_of_isPart here.2.1
    | commented pos first | assoc pos first | varRef pos first | constPathRef pos first
    | field pos first | aref pos first | arefField pos first | assign pos first
    | opAssign pos first | call pos first | vcall pos first | fcall pos first | command pos first
    | optionalParam pos first | keywordParam pos first | binary pos first =>
      have flush := below first (by simp [children, fields, Field.toList])
      simp only [shaped, Bool.and_eq_true] at here
      simp only [marks, List.append_assoc]
      first
      | exact (flush (isInline_of_isValue here.2) _).append _
      | exact (flush (isInline_of_isKey here.1) _).append _
      | exact flush (isInline_of_isVariable here) _
      | exact flush (isInline_of_isOfKind here (by decide)) _
      | exact (flush (isInline_of_isExpr here.2) _).append _
      | exact (flush (isInline_of_isTarget here.1) _).append _
      | exact (flush (isInline_of_isTarget here.1.1) _).append _
      | exact (flush (isInline_of_isCallee here.1) _).append _
      | exact (flush (isInline_of_isOfKind here.1 (by decide)) _).append _
      | split <;> exact (flush (isInline_of_isExpr here.1.2) _).append _

end Node

namespace Mark

/-- A document is written as marks of which the first has no blanks. -/
def Writes (width : Int) (level : Nat) (broken : Bool) (doc : Doc) (marks : List Mark) : Prop :=
  doc.chars width level broken = written marks ∧ Flush marks

section Constructs

variable {options : Options} {level : Nat} {broken : Bool} {nodes : List Node}
  {docOf : Node → Doc} {marksOf : Node → List Mark} {doc : Doc} {marks : List Mark}

theorem chars_join {separatorDoc : Doc} {separator : List Mark} {blanks : Nat}
    (between : separatorDoc.chars options.indentWidth level broken =
      written separator ++ List.replicate blanks ' ')
    (each : ∀ node ∈ nodes,
      Writes options.indentWidth level broken (docOf node) (marksOf node)) :
    (Doc.join separatorDoc (nodes.map docOf)).chars options.indentWidth level broken =
      written (join separator blanks (nodes.map marksOf)) := by
  have rest (first : Doc) (nodes : List Node) (each : ∀ node ∈ nodes,
      Writes options.indentWidth level broken (docOf node) (marksOf node)) :
      ((first :: nodes.map docOf).intersperse separatorDoc).flatMap
          (Doc.chars options.indentWidth level broken) =
        first.chars options.indentWidth level broken ++
          written ((nodes.map marksOf).flatMap fun part => separator ++ behind blanks part) := by
    induction nodes generalizing first with
    | nil => simp
    | cons node nodes ih =>
      obtain ⟨⟨same, flush⟩, others⟩ := List.forall_mem_cons.1 each
      simp [ih _ others, between, same, flush.written_behind]
  cases nodes with
  | nil => simp [Doc.join, join]
  | cons node nodes =>
    obtain ⟨⟨same, -⟩, others⟩ := List.forall_mem_cons.1 each
    simp [Doc.join, join, rest _ nodes others, same]

theorem chars_listed (each : ∀ node ∈ nodes,
      Writes options.indentWidth level broken (docOf node) (marksOf node)) :
    (Layout.listed (nodes.map docOf)).chars options.indentWidth level broken =
      written (listed options broken level (nodes.map marksOf)) := by
  refine chars_join ?_ each
  cases broken <;> simp [Layout.comma, Doc.softLine, breakIf, Options.gap, Options.indent]

theorem chars_inLine (each : ∀ node ∈ nodes,
      Writes options.indentWidth level broken (docOf node) (marksOf node)) :
    (Doc.join ", " (nodes.map docOf)).chars options.indentWidth level broken =
      written (inLine (nodes.map marksOf)) :=
  chars_join rfl each

theorem chars_stmts (each : ∀ node ∈ nodes,
      Writes options.indentWidth level broken (docOf node) (marksOf node)) :
    (Layout.stmts (nodes.map docOf)).chars options.indentWidth level broken =
      written (stmts options level (nodes.map marksOf)) := by
  refine chars_join ?_ each
  simp [Doc.hardLine, Options.indent]

theorem stmts_flush (some : nodes ≠ []) (each : ∀ node ∈ nodes, Flush (marksOf node)) :
    Flush (stmts options level (nodes.map marksOf)) := by
  cases nodes with
  | nil => exact absurd rfl some
  | cons node nodes => exact (each node List.mem_cons_self).join

theorem listed_flush (some : nodes ≠ []) (each : ∀ node ∈ nodes, Flush (marksOf node)) :
    Flush (listed options broken level (nodes.map marksOf)) := by
  cases nodes with
  | nil => exact absurd rfl some
  | cons node nodes => exact (each node List.mem_cons_self).join

theorem chars_indentedStmts (each : ∀ node ∈ nodes,
      Writes options.indentWidth (level + 1) broken (docOf node) (marksOf node)) :
    (Layout.indentedStmts (nodes.map docOf)).chars options.indentWidth level broken =
      written (indentedStmts options (level + 1) (nodes.map marksOf)) := by
  cases nodes with
  | nil => simp [Layout.indentedStmts, indentedStmts]
  | cons node nodes =>
    have flush : Flush (stmts options (level + 1) ((node :: nodes).map marksOf)) :=
      stmts_flush (List.cons_ne_nil _ _) fun node mem => (each node mem).2
    have same := chars_stmts each
    simp [Layout.indentedStmts, indentedStmts] at same flush ⊢
    simp [same, flush.written_behind, Doc.hardLine, Options.indent]

theorem chars_hanging (writes : Writes options.indentWidth (level + 1) broken doc marks) :
    (Layout.hanging doc).chars options.indentWidth level broken =
      written (hanging options broken (level + 1) marks) := by
  obtain ⟨same, flush⟩ := writes
  cases broken <;>
    simp [Layout.hanging, hanging, same, flush.written_behind, Doc.softLine, breakIf, Options.gap,
      Options.indent]

theorem chars_trailing (each : ∀ node ∈ nodes,
      Writes options.indentWidth level broken (docOf node) (marksOf node)) :
    (Layout.trailing (nodes.map docOf)).flatMap (Doc.chars options.indentWidth level broken) =
      written (trailing (nodes.map marksOf)) := by
  induction nodes with
  | nil => rfl
  | cons node nodes ih =>
    obtain ⟨⟨same, flush⟩, others⟩ := List.forall_mem_cons.1 each
    have rest := ih others
    simp only [Layout.trailing, trailing, List.map_cons, List.flatMap_cons, written_append] at rest ⊢
    simp [rest, same, flush.written_behind]

end Constructs

end Mark

theorem Doc.chars_group_of {width : Int} {level : Nat} {broken flag : Bool} {contents : Doc}
    (isBroken : (Doc.group contents).hasHardLine = flag) :
    (Doc.group contents).chars width level broken = contents.chars width level flag :=
  isBroken ▸ Doc.chars_group width level broken contents

namespace Mark
section Groups

variable {options : Options} {level : Nat} {broken flag : Bool} {nodes : List Node}
  {docOf : Node → Doc} {marksOf : Node → List Mark} {doc left : Doc} {marks leftMarks : List Mark}

@[simp]
theorem written_behind_op (blanks : Nat) (text : String) :
    written (behind blanks [op text]) = List.replicate blanks ' ' ++ text.toList :=
  List.append_nil _

@[simp]
theorem written_behind_word (blanks : Nat) (text : String) :
    written (behind blanks [word text]) = List.replicate blanks ' ' ++ text.toList :=
  List.append_nil _

theorem written_hanging (flush : Flush marks) :
    written (hanging options broken level marks) =
      Doc.softLine.chars options.indentWidth level broken ++ written marks := by
  cases broken <;>
    simp [hanging, flush.written_behind, Doc.softLine, breakIf, Options.gap, Options.indent]

theorem chars_program (each : ∀ node ∈ nodes,
      Writes options.indentWidth 0 broken (docOf node) (marksOf node)) :
    (Layout.program (nodes.map docOf)).chars options.indentWidth 0 broken =
      written (stmts options 0 (nodes.map marksOf) ++ breakIf (!nodes.isEmpty)) := by
  cases nodes with
  | nil => rfl
  | cons node nodes =>
    rw [Layout.program, if_neg (by simp), Doc.chars_concat, List.flatMap_cons, chars_stmts each]
    simp [Doc.hardLine, breakIf]

theorem chars_array (isBroken : (Layout.array (nodes.map docOf)).hasHardLine = flag)
    (each : ∀ node ∈ nodes, Writes options.indentWidth level flag (docOf node) (marksOf node)) :
    (Layout.array (nodes.map docOf)).chars options.indentWidth level broken =
      written (op "[" :: listed options flag level (nodes.map marksOf) ++ [op "]"]) := by
  cases nodes with
  | nil => rfl
  | cons node nodes =>
    rw [Layout.array, if_neg (by simp)] at isBroken ⊢
    rw [Doc.chars_group_of isBroken]
    simp [chars_listed each, -List.map_cons]

theorem chars_hash (isBroken : (Layout.hash (nodes.map docOf)).hasHardLine = flag)
    (each : ∀ node ∈ nodes,
      Writes options.indentWidth (level + 1) flag (docOf node) (marksOf node)) :
    (Layout.hash (nodes.map docOf)).chars options.indentWidth level broken =
      written (op "\x7b" :: if nodes.isEmpty then [op "\x7d"]
        else braced options flag level (listed options flag (level + 1) (nodes.map marksOf))) := by
  cases nodes with
  | nil => rfl
  | cons node nodes =>
    have inner := chars_hanging ⟨chars_listed each,
      listed_flush (List.cons_ne_nil _ _) fun node mem => (each node mem).2⟩
    rw [Layout.hash, if_neg (by simp)] at isBroken ⊢
    rw [Doc.chars_group_of isBroken]
    have closed : written (hanging options flag level [op "\x7d"]) = _ :=
      written_hanging (flush_cons rfl)
    simp [braced, inner, closed, -List.map_cons]

theorem chars_grouped (isBroken : (Doc.group (Layout.listed (nodes.map docOf))).hasHardLine = flag)
    (each : ∀ node ∈ nodes, Writes options.indentWidth level flag (docOf node) (marksOf node)) :
    (Doc.group (Layout.listed (nodes.map docOf))).chars options.indentWidth level broken =
      written (listed options flag level (nodes.map marksOf)) := by
  rw [Doc.chars_group_of isBroken, chars_listed each]

theorem chars_assoc {labelled : Bool} (isBroken : (Layout.assoc labelled left doc).hasHardLine = flag)
    (key : left.chars options.indentWidth level flag = written leftMarks)
    (value : Writes options.indentWidth (level + 1) flag doc marks) :
    (Layout.assoc labelled left doc).chars options.indentWidth level broken =
      written (leftMarks ++ (if labelled then [] else behind 1 [op "=>"])
        ++ hanging options flag (level + 1) marks) := by
  cases labelled
  all_goals
    simp only [Layout.assoc, if_true, Bool.false_eq_true, if_false] at isBroken ⊢
    rw [Doc.chars_group_of isBroken]
    simp [key, chars_hanging value]

theorem chars_assign {stays : Bool} (isBroken : (Layout.assign stays left doc).hasHardLine = flag)
    (target : left.chars options.indentWidth level flag = written leftMarks)
    {marksAt : Nat → List Mark}
    (value : ∀ level, Writes options.indentWidth level flag doc (marksAt level)) :
    (Layout.assign stays left doc).chars options.indentWidth level broken =
      written (leftMarks ++ behind 1 [op "="] ++ if stays then behind 1 (marksAt level)
        else hanging options flag (level + 1) (marksAt (level + 1))) := by
  cases stays
  all_goals
    simp only [Layout.assign, if_true, Bool.false_eq_true, if_false] at isBroken ⊢
    rw [Doc.chars_group_of isBroken]
    simp [target, chars_hanging (value _), (value _).1, (value level).2.written_behind]

theorem chars_operation {sign : String} {mark : Mark} (isBroken : (Layout.operation left sign doc).hasHardLine = flag)
    (target : left.chars options.indentWidth level flag = written leftMarks)
    (spelled : written (behind 1 [mark]) = ' ' :: sign.toList)
    (value : Writes options.indentWidth (level + 1) flag doc marks) :
    (Layout.operation left sign doc).chars options.indentWidth level broken =
      written (leftMarks ++ behind 1 [mark] ++ hanging options flag (level + 1) marks) := by
  rw [Layout.operation] at isBroken ⊢
  rw [Doc.chars_group_of isBroken]
  simp [target, chars_hanging value, spelled]

theorem chars_braced {hard : Bool} (some : nodes ≠ []) (each : ∀ node ∈ nodes,
      Writes options.indentWidth (level + 1) flag (docOf node) (marksOf node))
    (isBroken : hard = true → flag = true) :
    (Layout.bracedStmts (.line hard) (nodes.map docOf)).chars options.indentWidth level flag ++
        ((Doc.line hard).chars options.indentWidth level flag ++ ['\x7d']) =
      written (braced options flag level (stmts options (level + 1) (nodes.map marksOf))) := by
  have line (level : Nat) : (Doc.line hard).chars options.indentWidth level flag =
      Doc.softLine.chars options.indentWidth level flag := by
    cases hard with
    | false => rfl
    | true => simp [isBroken rfl, Doc.softLine]
  have body := chars_hanging ⟨chars_stmts each, stmts_flush some fun node mem => (each node mem).2⟩
  have closed : written (hanging options flag level [op "\x7d"]) = _ :=
    written_hanging (flush_cons rfl)
  rw [braced, written_append, ← body, closed, line level]
  simp [Layout.bracedStmts, Layout.hanging, line]

theorem chars_lambda {hard : Bool} {params : Option Node}
    (isBroken : (Layout.lambda (params.map docOf) (.line hard) (nodes.map docOf)).hasHardLine = flag)
    {paramsOf : Node → List Mark}
    (head : ∀ node ∈ params, ∀ broken,
      (docOf node).chars options.indentWidth level broken = written (paramsOf node))
    (each : ∀ node ∈ nodes,
      Writes options.indentWidth (level + 1) flag (docOf node) (marksOf node)) :
    (Layout.lambda (params.map docOf) (.line hard) (nodes.map docOf)).chars options.indentWidth level
        broken =
      written (op "->" ::
        ((params.map paramsOf).map fun parameters => op "(" :: parameters ++ [op ")"]).getD []
        ++ behind 1 [op "\x7b"]
        ++ if nodes.isEmpty then [op "\x7d"]
          else braced options flag level (stmts options (level + 1) (nodes.map marksOf))) := by
  have heads (broken : Bool) : (Layout.lambdaHead (params.map docOf)).flatMap
      (Doc.chars options.indentWidth level broken) = "->".toList ++
        written (((params.map paramsOf).map fun parameters =>
          op "(" :: parameters ++ [op ")"]).getD []) := by
    cases params with
    | none => simp [Layout.lambdaHead]
    | some params => simp [Layout.lambdaHead, head params rfl]
  cases nodes with
  | nil => simp [Layout.lambda, heads]
  | cons node nodes =>
    rw [Layout.lambda, if_neg (by simp)] at isBroken ⊢
    have hardLine : hard = true → flag = true := by
      rintro rfl
      rw [← isBroken]
      simp [Doc.hasHardLine]
    rw [Doc.chars_group_of isBroken]
    simp [heads, ← chars_braced (List.cons_ne_nil _ _) each hardLine, -List.map_cons]

theorem chars_braceBlock {hard : Bool} {params : Option Node}
    (isBroken :
      (Layout.braceBlock (params.map docOf) (.line hard) (nodes.map docOf)).hasHardLine = flag)
    {paramsOf : Node → List Mark}
    (head : ∀ node ∈ params, ∀ broken,
      Writes options.indentWidth level broken (docOf node) (paramsOf node))
    (each : ∀ node ∈ nodes,
      Writes options.indentWidth (level + 1) flag (docOf node) (marksOf node)) :
    (Layout.braceBlock (params.map docOf) (.line hard) (nodes.map docOf)).chars options.indentWidth
        level broken =
      written (op "\x7b" :: behind 1 ((params.map paramsOf).getD [])
        ++ if nodes.isEmpty then behind (if params.isSome then 1 else 0) [op "\x7d"]
          else braced options flag level (stmts options (level + 1) (nodes.map marksOf))) := by
  have heads (broken : Bool) : (Layout.blockParams (params.map docOf)).chars options.indentWidth
      level broken = written (behind 1 ((params.map paramsOf).getD [])) := by
    cases params with
    | none => rfl
    | some params =>
      have writes := head params rfl broken
      simp [Layout.blockParams, writes.1, writes.2.written_behind]
  cases nodes with
  | nil =>
    cases params with
    | none => rfl
    | some params =>
      have shown := heads broken
      simp only [Option.map_some] at shown
      simp [Layout.braceBlock, shown]
  | cons node nodes =>
    rw [Layout.braceBlock.eq_def, if_neg (by simp)] at isBroken ⊢
    have hardLine : hard = true → flag = true := by
      rintro rfl
      rw [← isBroken]
      simp [Doc.hasHardLine]
    rw [Doc.chars_group_of isBroken]
    simp [heads, ← chars_braced (List.cons_ne_nil _ _) each hardLine, -List.map_cons]

theorem chars_clause {word : String} (each : ∀ node ∈ nodes,
      Writes options.indentWidth (level + 1) broken (docOf node) (marksOf node)) :
    (Layout.clause word (nodes.map docOf)).chars options.indentWidth level broken =
      written (clause options level word (nodes.map marksOf)) := by
  simp [Layout.clause, clause, chars_indentedStmts each, Doc.hardLine, Options.indent]

/-- A part that may be absent is written as its marks, or as nothing. -/
theorem chars_optional {part : Option Node} (inner : ∀ node ∈ part,
      (docOf node).chars options.indentWidth level broken = written (marksOf node)) :
    (part.map docOf).toList.flatMap (Doc.chars options.indentWidth level broken) =
      written ((part.map marksOf).getD []) := by
  cases part with
  | none => rfl
  | some node => simp [inner node rfl]

theorem chars_optionalClause (word : String) {body : Option (List Node)}
    (each : ∀ stmts ∈ body, ∀ node ∈ stmts,
      Writes options.indentWidth (level + 1) broken (docOf node) (marksOf node)) :
    ((body.map (List.map docOf)).map (Layout.clause word)).toList.flatMap
        (Doc.chars options.indentWidth level broken) =
      written (((body.map (List.map marksOf)).map (clause options level word)).getD []) := by
  cases body with
  | none => rfl
  | some stmts => simp [chars_clause (each stmts rfl)]

/-- The statements in front of the clauses of a body, which may have none. -/
theorem chars_leadingStmts (each : ∀ node ∈ nodes,
      Writes options.indentWidth (level + 1) broken (docOf node) (marksOf node)) :
    (if (nodes.map docOf).isEmpty then [] else [Layout.indentedStmts (nodes.map docOf)]).flatMap
        (Doc.chars options.indentWidth level broken) =
      written (indentedStmts options (level + 1) (nodes.map marksOf)) := by
  rw [← chars_indentedStmts each]
  cases nodes with
  | nil => simp [Layout.indentedStmts]
  | cons => simp

theorem chars_exceptionTarget {target : Option Node} (each : ∀ node ∈ target,
      Writes options.indentWidth level broken (docOf node) (marksOf node)) :
    (Layout.exceptionTarget (target.map docOf)).flatMap
        (Doc.chars options.indentWidth level broken) =
      written (((target.map marksOf).map fun target =>
        behind 1 [op "=>"] ++ behind 1 target).getD []) := by
  cases target with
  | none => rfl
  | some target =>
    obtain ⟨same, flush⟩ := each target rfl
    simp [Layout.exceptionTarget, same, flush.written_behind]

theorem chars_exceptionList (each : ∀ node ∈ nodes,
      Writes options.indentWidth level broken (docOf node) (marksOf node)) :
    (Layout.exceptionList (nodes.map docOf)).flatMap (Doc.chars options.indentWidth level broken) =
      written (behind 1 (inLine (nodes.map marksOf))) := by
  cases nodes with
  | nil => rfl
  | cons node nodes =>
    have flush : Flush (inLine ((node :: nodes).map marksOf)) :=
      (each node List.mem_cons_self).2.join
    rw [flush.written_behind, ← chars_inLine each]
    simp [Layout.exceptionList]

end Groups
end Mark

namespace Mark

theorem written_behind_operator (text : String) :
    written (behind 1 [operator text]) = ' ' :: text.toList := by
  rw [Flush.written_behind ⟨_, _, rfl, rfl⟩]
  simp

theorem written_shorthand (message : String) :
    written (shorthand ("&:" ++ message)) = ("&:" ++ message).toList := by
  simp [shorthand, String.toList_append]

theorem written_behind_shorthand (message : String) :
    written (behind 1 (shorthand ("&:" ++ message))) = ' ' :: ("&:" ++ message).toList := by
  have flush : Flush (shorthand ("&:" ++ message)) := flush_cons rfl
  rw [flush.written_behind, written_shorthand]
  rfl

end Mark
namespace Node
open Mark

theorem loose_of_isMessage {node : Node} {hasArguments : Bool}
    (isMessage : node.isMessage hasArguments = true) :
    node.isValueList = false ∧ node.isOfKind .program = false := by
  cases node <;> first | exact ⟨rfl, rfl⟩ | cases isMessage

theorem loose_of_isInline {node : Node} (isInline : node.isInline = true) :
    node.isValueList = false ∧ node.isOfKind .program = false := by
  cases node <;> first | exact ⟨rfl, rfl⟩ | cases isInline

/-- The text of a call with one more argument, if its parts have the text of their marks. -/
theorem chars_layoutWith {options : Options} {callee : Node} {name : String}
    {level : Nat} {broken : Bool} (shaped : callee.wellShaped = true)
    (isCall : callee.isBlockCall = true)
    (same : ∀ part : Node, sizeOf part < sizeOf callee → part.wellShaped = true →
      part.isValueList = false ∧ part.isOfKind .program = false → ∀ parents,
      (part.layout options parents).chars options.indentWidth level broken =
        written (part.marks options parents level)) (parents : List Node) :
    (callee.layoutWith options parents ("&:" ++ name)).chars options.indentWidth level broken =
      written (callee.marksWith options parents level ("&:" ++ name)) := by
  obtain ⟨here, inside⟩ := wellShaped_iff.1 shaped
  have part (child : Node) (mem : child ∈ callee.children) :=
    same child (sizeOf_lt_of_mem_children mem) (inside child mem)
  have paren (args : Option Node) (mem : ∀ paren ∈ args, paren ∈ callee.children)
      (kind : args.all (isOfKind .argParen) = true) (parents : List Node) :
      ((layoutParenWith options parents ("&:" ++ name) args).getD
        (Layout.argParenWith ("&:" ++ name) none)).chars options.indentWidth level broken =
        written (marksParenWith options parents level ("&:" ++ name) args) := by
    cases args with
    | none => simp [layoutParenWith, marksParenWith, Layout.argParenWith, parenWith, written_shorthand]
    | some paren =>
      cases paren with
      | argParen pos args =>
        cases args with
        | none =>
          simp [layoutParenWith, marksParenWith, Layout.argParenWith, parenWith, written_shorthand]
        | some args =>
          have outer := mem _ rfl
          obtain ⟨isArgs, argsShaped⟩ := wellShaped_iff.1 (inside _ outer)
          have child : args ∈ (Node.argParen pos (some args)).children := by
            simp [children, fields, Field.toList]
          have inner := same args
            (Nat.lt_trans (sizeOf_lt_of_mem_children child) (sizeOf_lt_of_mem_children outer))
            (argsShaped args child) (loose_of_isInline (isInline_of_isOfKind isArgs (by decide)))
          simp [layoutParenWith, marksParenWith, Layout.argParenWith, parenWith,
            written_behind_shorthand, inner]
      | _ => cases kind
  cases callee with
  | call pos receiver operator message args comments =>
    simp only [Node.shaped, Bool.and_eq_true] at here
    have sent := part receiver (by simp [children, fields, Field.toList])
      (loose_of_isInline (isInline_of_isExpr here.2))
    have named := part message (by simp [children, fields, Field.toList])
      (loose_of_isMessage here.1.1.1.2)
    have given := paren args
      (fun paren mem => by simp [children, fields, Field.toList, Option.mem_def.1 mem]) here.1.1.2
    simp [layoutWith, marksWith, Layout.call, Layout.trailing, sent, named, given]
  | fcall pos message args =>
    simp only [Node.shaped, Bool.and_eq_true] at here
    have named := part message (by simp [children, fields, Field.toList])
      (loose_of_isInline (isInline_of_isCallee here.1))
    have given := paren args
      (fun paren mem => by simp [children, fields, Field.toList, Option.mem_def.1 mem]) here.2
    cases args with
    | none =>
      simp [layoutWith, marksWith, Layout.fcallWith, named, layoutParenWith, marksParenWith,
        parenWith, written_shorthand]
    | some args =>
      cases args with
      | argParen =>
        simp [layoutParenWith] at given
        simp [layoutWith, marksWith, Layout.fcallWith, named, given, layoutParenWith]
      | _ => cases here.2
  | command pos message args =>
    simp only [Node.shaped, Bool.and_eq_true] at here
    have named := part message (by simp [children, fields, Field.toList])
      (loose_of_isInline (isInline_of_isOfKind here.1 (by decide)))
    have isInline := isInline_of_isOfKind here.2 (by decide)
    have mem : args ∈ (Node.command pos message args).children := by
      simp [children, fields, Field.toList]
    have given := part args mem (loose_of_isInline isInline)
    have flush (parents : List Node) : Flush (args.marks options parents level) :=
      marks_flush (inside args mem) (Bool.and_eq_true_iff.1 isInline).1 parents level
    simp [layoutWith, marksWith, named, given, (flush _).written_behind, written_behind_shorthand]
  | _ => cases isCall
theorem isInline_of_isElement {node : Node} (isElement : node.isElement = true) :
    node.isInline = true := by
  cases node <;> first | rfl | cases isElement

theorem isInline_of_isBlock {node : Node} (isBlock : node.isBlock = true) :
    node.isInline = true := by
  cases node <;> first | rfl | cases isBlock

theorem isInline_of_isRight {node : Node} (isRight : node.isRight = true)
    (noList : node.isValueList = false) : node.isInline = true := by
  cases node <;> first | rfl | (cases isRight; done) | cases noList

theorem loose_of_isParams {node : Node} (isParams : node.isOfKind .params = true) :
    node.isValueList = false ∧ node.isOfKind .program = false := by
  cases node <;> first | exact ⟨rfl, rfl⟩ | cases isParams

theorem loose_of_isBody {node : Node} (isBody : node.isOfKind .bodyStmt = true) :
    node.isValueList = false ∧ node.isOfKind .program = false := by
  cases node <;> first | exact ⟨rfl, rfl⟩ | cases isBody

/-- The families of nodes. -/
inductive Family where
  | atoms
  | statements
  | collections
  | references
  | assignments
  | arguments
  | calls
  | parameters
  | clauses
  | blocks
  | operators

/-- The family of a node. -/
def family : Node → Family
  | .name _ _ _ | .literal _ _ _ | .callShorthand _ | .comment _ _ | .excessedComma _ | .bare _
  | .symbolLit _ _ => .atoms
  | .program _ _ | .commented _ _ _ => .statements
  | .array _ _ | .assoc _ _ _ | .hash _ _ | .bareAssocHash _ _ => .collections
  | .varRef _ _ | .varField _ _ | .constPathRef _ _ _ | .field _ _ _ _ | .aref _ _ _
  | .arefField _ _ _ => .references
  | .assign _ _ _ | .opAssign _ _ _ _ | .valueList _ _ | .splatValueList _ _ => .assignments
  | .splat _ _ | .doubleSplat _ _ | .args _ _ | .argParen _ _ | .blockArg _ _ => .arguments
  | .call _ _ _ _ _ _ | .vcall _ _ | .fcall _ _ _ | .command _ _ _ | .methodAddBlock _ _ _ => .calls
  | .optionalParam _ _ _ | .restParam _ _ | .keywordRestParam _ _ | .keywordParam _ _ _
  | .blockParam _ _ | .params _ _ _ _ _ _ _ _ | .blockVar _ _ => .parameters
  | .rescue _ _ _ _ _ | .bodyStmt _ _ _ _ _ => .clauses
  | .lambda _ _ _ | .braceBlock _ _ _ | .doBlock _ _ _ => .blocks
  | .binary _ _ _ _ | .unary _ _ _ | .paren _ _ => .operators

/-- A shaped node whose smaller parts have the text of their marks: a list of values where its group
is broken as it breaks, a program at the margin. -/
structure PartsWritten (options : Options) (node : Node) : Prop where
  shaped : node.wellShaped = true
  each (part : Node) (smaller : sizeOf part < sizeOf node) (shaped : part.wellShaped = true)
    (parents : List Node) (level : Nat) (broken : Bool)
    (own : part.isValueList = true → broken = part.isBroken options parents)
    (top : part.isOfKind .program = true → level = 0) :
    (part.layout options parents).chars options.indentWidth level broken =
      written (part.marks options parents level)

namespace PartsWritten

variable {options : Options} {node : Node}

/-- A smaller part that is neither a list of values nor a program has the text of its marks. -/
theorem loose (parts : node.PartsWritten options) (part : Node) (smaller : sizeOf part < sizeOf node)
    (shaped : part.wellShaped = true)
    (loose : part.isValueList = false ∧ part.isOfKind .program = false) (parents : List Node)
    (level : Nat) (broken : Bool) :
    (part.layout options parents).chars options.indentWidth level broken =
      written (part.marks options parents level) :=
  parts.each part smaller shaped parents level broken (by simp [loose.1]) (by simp [loose.2])

theorem child (parts : node.PartsWritten options) (child : Node) (mem : child ∈ node.children)
    (loose : child.isValueList = false ∧ child.isOfKind .program = false) (parents : List Node)
    (level : Nat) (broken : Bool) :
    (child.layout options parents).chars options.indentWidth level broken =
      written (child.marks options parents level) :=
  parts.loose child (sizeOf_lt_of_mem_children mem) ((wellShaped_iff.1 parts.shaped).2 child mem)
    loose parents level broken

theorem inline (parts : node.PartsWritten options) (child : Node) (mem : child ∈ node.children)
    (isInline : child.isInline = true) (parents : List Node) (level : Nat) (broken : Bool) :
    Writes options.indentWidth level broken (child.layout options parents)
      (child.marks options parents level) :=
  ⟨parts.child child mem (loose_of_isInline isInline) parents level broken,
    marks_flush ((wellShaped_iff.1 parts.shaped).2 child mem) (Bool.and_eq_true_iff.1 isInline).1
      parents level⟩

/-- The right side of an assignment is written as its marks, a list of values in its own group. -/
theorem right (parts : node.PartsWritten options) (child : Node) (mem : child ∈ node.children)
    (isRight : child.isRight = true) (parents : List Node) (level : Nat) (broken : Bool) :
    Writes options.indentWidth level broken
      (if child.isValueList then .group (child.layout options parents)
        else child.layout options parents)
      (child.marks options parents level) := by
  have shaped := (wellShaped_iff.1 parts.shaped).2 child mem
  cases isList : child.isValueList with
  | false =>
    simpa using parts.inline child mem (isInline_of_isRight isRight isList) parents level broken
  | true =>
    have isPrinted : child.isPrinted = true := by cases child <;> first | rfl | cases isList
    have noProgram : child.isOfKind .program = false := by
      cases child <;> first | rfl | cases isList
    refine ⟨?_, marks_flush shaped isPrinted parents level⟩
    rw [if_pos rfl, Doc.chars_group]
    exact parts.each child (sizeOf_lt_of_mem_children mem) shaped parents level _ (fun _ => rfl)
      (by simp [noProgram])

end PartsWritten

variable {options : Options} {node : Node} {parents : List Node} {level : Nat} {broken : Bool}

section Families

variable (parts : node.PartsWritten options)
include parts

theorem chars_atoms (family : node.family = .atoms) :
    (node.layout options parents).chars options.indentWidth level broken = written (node.marks options parents level) := by
  have here := (wellShaped_iff.1 parts.shaped).1
  cases node with
  | name | literal | callShorthand | comment | excessedComma => simp [layout, marks]
  | bare => cases here
  | symbolLit pos value =>
    cases value with
    | name => simp [layout, marks, nameText]
    | _ => cases here
  | _ => cases family

theorem chars_statements (family : node.family = .statements)
    (top : node.isOfKind .program = true → level = 0) :
    (node.layout options parents).chars options.indentWidth level broken = written (node.marks options parents level) := by
  have here := (wellShaped_iff.1 parts.shaped).1
  cases node with
  | program pos stmts =>
    obtain rfl := top rfl
    simp only [layout, marks, layoutList_eq_map, marksList_eq_map]
    exact chars_program fun stmt mem => parts.inline stmt
      (by simpa [children, fields, Field.toList] using mem)
      (isInline_of_isStmt (List.all_eq_true.1 here stmt mem)) _ _ _
  | commented pos stmt comments =>
    simp only [Node.shaped, Bool.and_eq_true, List.all_eq_true] at here
    have first := parts.inline stmt (by simp [children, fields, Field.toList])
      (isInline_of_isValue here.2)
      (.commented pos stmt comments :: parents) level broken
    have others := chars_trailing fun remark mem => parts.inline remark
      (by simp [children, fields, Field.toList, mem])
      (isInline_of_isOfKind (here.1.1 remark mem) (by decide))
      (.commented pos stmt comments :: parents) level broken
    simp [layout, marks, first.1, others]
  | _ => cases family

theorem chars_collections (family : node.family = .collections) :
    (node.layout options parents).chars options.indentWidth level broken = written (node.marks options parents level) := by
  have here := (wellShaped_iff.1 parts.shaped).1
  cases node with
  | array pos elements =>
    simp only [layout, marks, layoutList_eq_map, marksList_eq_map]
    refine chars_array ?_ fun element mem => parts.inline element
      (by simpa [children, fields, Field.toList] using mem)
      (isInline_of_isElement (List.all_eq_true.1 here element mem)) _ _ _
    simp [isBroken, layout]
  | assoc pos key value =>
    obtain ⟨isKey, isExpr⟩ := Bool.and_eq_true_iff.1 here
    simp only [layout, marks]
    refine chars_assoc ?_ (parts.inline key (by simp [children, fields, Field.toList])
      (isInline_of_isKey isKey) _ _ _).1
      (parts.inline value (by simp [children, fields, Field.toList])
      (isInline_of_isExpr isExpr) _ _ _)
    simp [isBroken, layout]
  | hash pos entries =>
    simp only [layout, marks, layoutList_eq_map, marksList_eq_map]
    refine chars_hash ?_ fun entry mem => parts.inline entry
      (by simpa [children, fields, Field.toList] using mem)
      (isInline_of_isEntry (List.all_eq_true.1 here entry mem)) _ _ _
    simp [isBroken, layout]
  | bareAssocHash pos entries =>
    simp only [layout, marks, layoutList_eq_map, marksList_eq_map]
    refine chars_grouped ?_ fun entry mem => parts.inline entry
      (by simpa [children, fields, Field.toList] using mem)
      (isInline_of_isEntry (List.all_eq_true.1 (Bool.and_eq_true_iff.1 here).2 entry mem)) _ _ _
    simp [isBroken, layout]
  | _ => cases family

theorem chars_references (family : node.family = .references) :
    (node.layout options parents).chars options.indentWidth level broken = written (node.marks options parents level) := by
  have here := (wellShaped_iff.1 parts.shaped).1
  cases node with
  | varRef pos inner =>
    exact (parts.inline inner (by simp [children, fields, Field.toList])
      (isInline_of_isVariable here) _ _ _).1
  | varField pos inner =>
    cases inner with
    | none => cases here
    | some inner =>
      exact (parts.inline inner (by simp [children, fields, Field.toList])
        (isInline_of_isAssignable here) _ _ _).1
  | constPathRef pos parent ident =>
    obtain ⟨isConst, isExpr⟩ := Bool.and_eq_true_iff.1 here
    have left := (parts.inline parent (by simp [children, fields, Field.toList])
      (isInline_of_isExpr isExpr) (.constPathRef pos parent ident :: parents) level broken).1
    have right := (parts.inline ident (by simp [children, fields, Field.toList])
      (isInline_of_isOfKind isConst (by decide)) (.constPathRef pos parent ident :: parents) level
      broken).1
    simp [layout, marks, left, right]
  | field pos receiver operator ident =>
    simp only [Node.shaped, Bool.and_eq_true] at here
    have left := (parts.inline receiver (by simp [children, fields, Field.toList])
      (isInline_of_isExpr here.2) (.field pos receiver operator ident :: parents) level broken).1
    have right := (parts.inline ident (by simp [children, fields, Field.toList])
      (isInline_of_isOfKind here.1.2 (by decide)) (.field pos receiver operator ident :: parents)
      level
      broken).1
    simp [layout, marks, left, right]
  | aref pos receiver args | arefField pos receiver args =>
    simp only [Node.shaped, Bool.and_eq_true] at here
    have left (parents : List Node) := (parts.inline receiver
      (by simp [children, fields, Field.toList])
      (isInline_of_isExpr here.2) parents level broken).1
    cases args with
    | none => simp [layout, marks, Layout.index, left]
    | some args =>
      have inner (parents : List Node) := (parts.inline args
        (by simp [children, fields, Field.toList])
        (isInline_of_isOfKind here.1 (by decide)) parents level broken).1
      simp [layout, marks, Layout.index, left, inner]
  | _ => cases family

theorem chars_assignments (family : node.family = .assignments)
    (own : node.isValueList = true → broken = node.isBroken options parents) :
    (node.layout options parents).chars options.indentWidth level broken = written (node.marks options parents level) := by
  have here := (wellShaped_iff.1 parts.shaped).1
  cases node with
  | assign pos target value =>
    obtain ⟨isTarget, isRight⟩ := Bool.and_eq_true_iff.1 here
    simp only [layout, marks]
    refine chars_assign ?_ (parts.inline target (by simp [children, fields, Field.toList])
      (isInline_of_isTarget isTarget) _ _ _).1 fun level =>
        parts.right value (by simp [children, fields, Field.toList]) isRight _ level _
    simp [isBroken, layout]
  | opAssign pos target operator value =>
    simp only [Node.shaped, Bool.and_eq_true] at here
    simp only [layout, marks]
    refine chars_operation ?_ (parts.inline target (by simp [children, fields, Field.toList])
      (isInline_of_isTarget here.1.1) _ _ _).1 (by simp)
      (parts.inline value (by simp [children, fields, Field.toList])
      (isInline_of_isValue here.2) _ _ _)
    simp [isBroken, layout]
  | valueList pos values | splatValueList pos values =>
    obtain rfl := own rfl
    simp only [layout, marks, layoutList_eq_map, marksList_eq_map]
    exact chars_listed fun value mem => parts.inline value
      (by simpa [children, fields, Field.toList] using mem)
      (isInline_of_isListed (List.all_eq_true.1 (Bool.and_eq_true_iff.1 here).2 value mem)) _ _ _
  | _ => cases family

theorem chars_arguments (family : node.family = .arguments) :
    (node.layout options parents).chars options.indentWidth level broken = written (node.marks options parents level) := by
  have here := (wellShaped_iff.1 parts.shaped).1
  cases node with
  | splat pos value | doubleSplat pos value =>
    have inner (parents : List Node) := (parts.inline value
      (by simp [children, fields, Field.toList])
      (isInline_of_isExpr here) parents level broken).1
    simp [layout, marks, inner]
  | args pos parts =>
    simp only [layout, marks, layoutList_eq_map, marksList_eq_map]
    refine chars_grouped ?_ fun part mem => parts.inline part
      (by simpa [children, fields, Field.toList] using mem)
      (isInline_of_isPart (List.all_eq_true.1 (Bool.and_eq_true_iff.1 here).2 part mem)) _ _ _
    simp [isBroken, layout]
  | argParen pos args =>
    cases args with
    | none => simp [layout, marks, Layout.argParen]
    | some args =>
      have inner (parents : List Node) := (parts.inline args
        (by simp [children, fields, Field.toList])
        (isInline_of_isOfKind here (by decide)) parents level broken).1
      simp [layout, marks, Layout.argParen, inner]
  | blockArg pos value =>
    cases value with
    | none => simp [layout, marks, Layout.marked]
    | some value =>
      have inner (parents : List Node) := (parts.inline value
        (by simp [children, fields, Field.toList])
        (isInline_of_isExpr here) parents level broken).1
      simp [layout, marks, Layout.marked, inner]
  | _ => cases family

theorem chars_calls (family : node.family = .calls) :
    (node.layout options parents).chars options.indentWidth level broken = written (node.marks options parents level) := by
  obtain ⟨here, inside⟩ := wellShaped_iff.1 parts.shaped
  cases node with
  | call pos receiver operator message args comments =>
    simp only [Node.shaped, Bool.and_eq_true, List.all_eq_true, Option.all_eq_true] at here
    have sent := (parts.inline receiver (by simp [children, fields, Field.toList])
      (isInline_of_isExpr here.2)
      (.call pos receiver operator message args comments :: parents) level broken).1
    have named := parts.child message (by simp [children, fields, Field.toList])
      (loose_of_isMessage here.1.1.1.2)
      (.call pos receiver operator message args comments :: parents) level broken
    have others := chars_trailing fun remark mem => parts.inline remark
      (by simp [children, fields, Field.toList, mem])
      (isInline_of_isOfKind (here.1.2 remark mem) (by decide))
      (.call pos receiver operator message args comments :: parents) level broken
    cases args with
    | none => simp [layout, marks, Layout.call, sent, named, others]
    | some args =>
      have inner := (parts.inline args (by simp [children, fields, Field.toList])
        (isInline_of_isOfKind (here.1.1.2 args rfl) (by decide))
        (.call pos receiver operator message (some args) comments :: parents) level broken).1
      simp [layout, marks, Layout.call, sent, named, others, inner]
  | vcall pos message =>
    exact (parts.inline message (by simp [children, fields, Field.toList])
      (isInline_of_isOfKind here (by decide)) _ _ _).1
  | fcall pos message args =>
    simp only [Node.shaped, Bool.and_eq_true] at here
    have named (parents : List Node) := (parts.inline message
      (by simp [children, fields, Field.toList])
      (isInline_of_isCallee here.1) parents level broken).1
    cases args with
    | none => simp [layout, marks, Layout.fcall, named]
    | some args =>
      have inner (parents : List Node) := (parts.inline args
        (by simp [children, fields, Field.toList])
        (isInline_of_isOfKind here.2 (by decide)) parents level broken).1
      simp [layout, marks, Layout.fcall, named, inner]
  | command pos message args =>
    simp only [Node.shaped, Bool.and_eq_true] at here
    have named := (parts.inline message (by simp [children, fields, Field.toList])
      (isInline_of_isOfKind here.1 (by decide)) (.command pos message args :: parents) level
      broken).1
    have inner := parts.inline args (by simp [children, fields, Field.toList])
      (isInline_of_isOfKind here.2 (by decide)) (.command pos message args :: parents) level broken
    simp [layout, marks, named, inner.1, inner.2.written_behind]
  | methodAddBlock pos callee block =>
    obtain ⟨isCall, isBlock⟩ := Bool.and_eq_true_iff.1 here
    have mem : callee ∈ (Node.methodAddBlock pos callee block).children := by
      simp [children, fields, Field.toList]
    rw [layout_methodAddBlock, marks]
    cases collapsed : (Node.methodAddBlock pos callee block).extra? options parents with
    | some extra =>
      obtain ⟨name, -, rfl⟩ := exists_of_extra? collapsed
      exact chars_layoutWith (inside callee mem) isCall (fun child smaller shaped loose parents =>
        parts.loose child (Nat.lt_trans smaller (sizeOf_lt_of_mem_children mem)) shaped
        loose _ _ _) _
    | none =>
      have left := (parts.inline callee mem (isInline_of_isExpr (isExpr_of_isBlockCall isCall))
        (.methodAddBlock pos callee block :: parents) level broken).1
      have right := parts.inline block (by simp [children, fields, Field.toList])
        (isInline_of_isBlock isBlock) (.methodAddBlock pos callee block :: parents) level broken
      simp [left, right.1, right.2.written_behind]
  | _ => cases family

theorem chars_parameters (family : node.family = .parameters) :
    (node.layout options parents).chars options.indentWidth level broken = written (node.marks options parents level) := by
  have here := (wellShaped_iff.1 parts.shaped).1
  cases node with
  | optionalParam pos ident default =>
    obtain ⟨isName, isExpr⟩ := Bool.and_eq_true_iff.1 here
    have named := (parts.inline ident (by simp [children, fields, Field.toList])
      (isInline_of_isOfKind isName (by decide)) (.optionalParam pos ident default :: parents) level
      broken).1
    have value := parts.inline default (by simp [children, fields, Field.toList])
      (isInline_of_isExpr isExpr) (.optionalParam pos ident default :: parents) level broken
    simp [layout, marks, Layout.defaulted, named, value.1, value.2.written_behind]
  | restParam pos ident | keywordRestParam pos ident =>
    cases ident with
    | none => simp [layout, marks, Layout.marked]
    | some ident =>
      have named (parents : List Node) := (parts.inline ident
        (by simp [children, fields, Field.toList])
        (isInline_of_isOfKind here (by decide)) parents level broken).1
      simp [layout, marks, Layout.marked, named]
  | keywordParam pos label default =>
    obtain ⟨isName, isExpr⟩ := Bool.and_eq_true_iff.1 here
    have named (parents : List Node) := (parts.inline label
      (by simp [children, fields, Field.toList])
      (isInline_of_isOfKind isName (by decide)) parents level broken).1
    cases default with
    | none => simp [layout, marks, Layout.defaulted, named, behind]
    | some default =>
      have value (parents : List Node) := parts.inline default
        (by simp [children, fields, Field.toList])
        (isInline_of_isExpr isExpr) parents level broken
      simp [layout, marks, Layout.defaulted, named, (value _).1, (value _).2.written_behind]
  | blockParam pos ident =>
    have named := (parts.inline ident (by simp [children, fields, Field.toList])
      (isInline_of_isOfKind here (by decide)) (.blockParam pos ident :: parents) level broken).1
    simp [layout, marks, Layout.marked, named]
  | params pos required optional rest post keywords keywordRest block =>
    have isParams : (Node.params pos required optional rest post keywords keywordRest
      block).isOfKind .params = true := rfl
    generalize Node.params pos required optional rest post keywords keywordRest block = tree
      at here parts isParams ⊢
    have listed := chars_inLine fun param mem => parts.inline param (ordered_shaped here mem).1
      (isInline_of_isParam (ordered_shaped here mem).2) (tree :: parents) level broken
    rw [layout_params isParams here, marks_params isParams here]
    split <;> simp [listed]
  | blockVar pos params =>
    cases params with
    | none => simp [layout, marks, Layout.blockVar]
    | some params =>
      have inner := parts.child params (by simp [children, fields, Field.toList])
        (loose_of_isParams here)
        (.blockVar pos (some params) :: parents) level broken
      simp [layout, marks, Layout.blockVar, inner]
  | _ => cases family

theorem chars_clauses (family : node.family = .clauses) :
    (node.layout options parents).chars options.indentWidth level broken = written (node.marks options parents level) := by
  have here := (wellShaped_iff.1 parts.shaped).1
  cases node with
  | rescue pos exceptions target stmts next =>
    simp only [Node.shaped, Bool.and_eq_true, Option.all_eq_true, List.all_eq_true] at here
    have named (parents : List Node) := chars_exceptionList fun exception mem =>
      parts.inline exception (by simp [children, fields, Field.toList, mem])
        (isInline_of_isExpr (here.1.2 exception mem)) parents level broken
    have held (parents : List Node) := chars_exceptionTarget fun node mem =>
      parts.inline node (by simp [children, fields, Field.toList, Option.mem_def.1 mem])
        (isInline_of_isTarget (here.1.1.1 node mem)) parents level broken
    have body (parents : List Node) := chars_indentedStmts fun stmt mem =>
      parts.inline stmt (by simp [children, fields, Field.toList, mem])
        (isInline_of_isStmt (here.2 stmt mem)) parents (level + 1) broken
    have others (parents : List Node) := chars_optional fun clause mem =>
      (parts.inline clause (by simp [children, fields, Field.toList, Option.mem_def.1 mem])
        (isInline_of_isOfKind (here.1.1.2 clause mem) (by decide)) parents level broken).1
    simp [layout, marks, Layout.rescue, named, held, body, others, Doc.hardLine, Options.indent]
  | bodyStmt pos stmts handler elseBody ensure =>
    simp only [Node.shaped, Bool.and_eq_true, Option.all_eq_true, List.all_eq_true] at here
    have start (parents : List Node) := chars_leadingStmts fun stmt mem =>
      parts.inline stmt (by simp [children, fields, Field.toList, mem])
        (isInline_of_isStmt (here.1.1.2 stmt mem)) parents (level + 1) broken
    have others (parents : List Node) := chars_optional fun clause mem =>
      (parts.inline clause (by simp [children, fields, Field.toList, Option.mem_def.1 mem])
        (isInline_of_isOfKind (here.1.1.1 clause mem) (by decide)) parents level broken).1
    have elseClause (parents : List Node) (word : String) := chars_optionalClause word
      fun clause found stmt mem => parts.inline stmt
        (by simp [children, fields, Field.toList, Option.mem_def.1 found, mem])
        (isInline_of_isStmt (here.1.2 clause found stmt mem)) parents (level + 1) broken
    have ensureClause (parents : List Node) (word : String) := chars_optionalClause word
      fun clause found stmt mem => parts.inline stmt
        (by simp [children, fields, Field.toList, Option.mem_def.1 found, mem])
        (isInline_of_isStmt (here.2 clause found stmt mem)) parents (level + 1) broken
    simp only [layout, marks, layoutList_eq_map, marksList_eq_map, layoutOption_eq_map,
      marksOption_eq_map, layoutOptionList_eq_map, marksOptionList_eq_map, Layout.bodyStmt,
      Doc.chars_concat, List.flatMap_append, start, others, elseClause, ensureClause,
      written_append]
  | _ => cases family

theorem chars_blocks (family : node.family = .blocks) :
    (node.layout options parents).chars options.indentWidth level broken = written (node.marks options parents level) := by
  have here := (wellShaped_iff.1 parts.shaped).1
  cases node with
  | lambda pos params body =>
    simp only [Node.shaped, Bool.and_eq_true, Option.all_eq_true, List.all_eq_true] at here
    obtain ⟨hard, around⟩ := lineAround_eq body
    simp only [layout, marks, layoutList_eq_map, marksList_eq_map, layoutOption_eq_map,
      marksOption_eq_map, around]
    refine chars_lambda ?_ (fun node mem broken => ?_) fun stmt mem => parts.inline stmt
      (by simp [children, fields, Field.toList, mem]) (isInline_of_isStmt (here.2 stmt mem)) _ _ _
    · simp [isBroken, layout, around]
    · have isParams := here.1 node mem
      exact parts.child node (by simp [children, fields, Field.toList, Option.mem_def.1 mem])
        (loose_of_isParams isParams) _ _ _
  | braceBlock pos params body =>
    simp only [Node.shaped, Bool.and_eq_true, Option.all_eq_true, List.all_eq_true] at here
    obtain ⟨hard, around⟩ := lineAround_eq body
    simp only [layout, marks, layoutList_eq_map, marksList_eq_map, layoutOption_eq_map,
      marksOption_eq_map, around]
    refine chars_braceBlock ?_ (fun node mem broken => parts.inline node
      (by simp [children, fields, Field.toList, Option.mem_def.1 mem])
      (isInline_of_isOfKind (here.1 node mem) (by decide)) _ _ _) fun stmt mem => parts.inline stmt
      (by simp [children, fields, Field.toList, mem]) (isInline_of_isStmt (here.2 stmt mem)) _ _ _
    simp [isBroken, layout, around]
  | doBlock pos params body =>
    obtain ⟨isVar, isBody⟩ := Bool.and_eq_true_iff.1 here
    have inner (parents : List Node) := parts.child body (by simp [children, fields, Field.toList])
      (loose_of_isBody isBody) parents level broken
    cases params with
    | none => simp [layout, marks, Layout.blockParams, inner, Doc.hardLine, Options.indent]
    | some params =>
      have head (parents : List Node) := parts.inline params
        (by simp [children, fields, Field.toList])
        (isInline_of_isOfKind isVar (by decide)) parents level broken
      simp [layout, marks, Layout.blockParams, inner, (head _).1, (head _).2.written_behind,
        Doc.hardLine, Options.indent]
  | _ => cases family

theorem chars_operators (family : node.family = .operators) :
    (node.layout options parents).chars options.indentWidth level broken = written (node.marks options parents level) := by
  have here := (wellShaped_iff.1 parts.shaped).1
  cases node with
  | binary pos left op right =>
    simp only [Node.shaped, Bool.and_eq_true] at here
    have first (parents : List Node) (broken : Bool) := parts.inline left
      (by simp [children, fields, Field.toList]) (isInline_of_isExpr here.1.2) parents level broken
    have second (parents : List Node) (level : Nat) (broken : Bool) := parts.inline right
      (by simp [children, fields, Field.toList]) (isInline_of_isExpr here.2) parents level broken
    simp only [layout, marks, Layout.binary]
    split
    next isTight => simp [(first _ _).1, (second _ _ _).1]
    next isLoose =>
      refine chars_operation ?_ (first _ _).1 ?_ (second _ _ _)
      · simp only [isBroken, layout, Layout.binary, if_neg isLoose]
      · exact written_behind_operator op
  | unary pos op operand =>
    have inner := parts.inline operand (by simp [children, fields, Field.toList])
      (isInline_of_isExpr (Bool.and_eq_true_iff.1 here).2) (.unary pos op operand :: parents) level
      broken
    simp only [layout, marks, Layout.unary]
    split <;> simp [inner.1, inner.2.written_behind]
  | paren pos expr =>
    have inner := (parts.inline expr (by simp [children, fields, Field.toList])
      (isInline_of_isValue here) (.paren pos expr :: parents) level broken).1
    simp [layout, marks, inner]
  | _ => cases family

end Families

/-- The text of a document is that of the marks of its tree, before lines are trimmed. -/
theorem chars_layout {options : Options} {node : Node} (shaped : node.wellShaped = true)
    (parents : List Node) (level : Nat) (broken : Bool)
    (own : node.isValueList = true → broken = node.isBroken options parents)
    (top : node.isOfKind .program = true → level = 0) :
    (node.layout options parents).chars options.indentWidth level broken =
      written (node.marks options parents level) := by
  induction node using induction_smaller generalizing parents level broken with
  | step node ih =>
    have parts : node.PartsWritten options := ⟨shaped, ih⟩
    cases family : node.family with
    | atoms => exact chars_atoms parts family
    | statements => exact chars_statements parts family top
    | collections => exact chars_collections parts family
    | references => exact chars_references parts family
    | assignments => exact chars_assignments parts family own
    | arguments => exact chars_arguments parts family
    | calls => exact chars_calls parts family
    | parameters => exact chars_parameters parts family
    | clauses => exact chars_clauses parts family
    | blocks => exact chars_blocks parts family
    | operators => exact chars_operators parts family

end Node

end RubyFormat
