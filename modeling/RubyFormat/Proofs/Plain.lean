import RubyFormat.Proofs.HardLines
import RubyFormat.Proofs.Trimmed

/-!
# Plain trees

A tree is plain if it is made of literals, operators, parentheses, arrays, hashes and assignments to
variables.  No statement of such a tree is broken: its document has no hard line, and its marks
depend neither on the options nor on the nodes above.  The text of a plain tree is therefore the
same for every width of indentation, and every width can be written.
-/

namespace RubyFormat

namespace Node

/-- Whether the last token of a node stays what it is before any operator.  A symbol could take the
operator up: the symbol `:*` right before `**` is read as `:**`. -/
def endsSafely : Node → Bool
  | .literal _ _ _ | .varRef _ _ | .paren _ _ | .array _ _ | .hash _ _ => true
  | .unary _ _ operand => endsSafely operand
  | .binary _ _ _ right => endsSafely right
  | _ => false

/-- Whether a node is the name of a variable with a sigil, or a literal keyword. -/
def isFixedName : Node → Bool
  | .name .keyword _ text => literalKeywords.contains text
  | .name kind _ _ => kind == .ivar || kind == .cvar || kind == .gvar
  | _ => false

/-- Whether a node can stand in a plain tree, whatever is below it. -/
def plain : Node → Bool
  | .name _ _ _ | .literal _ _ _ | .symbolLit _ _ | .array _ _ | .assoc _ _ _ | .hash _ _
  | .varField _ _ | .valueList _ _ | .paren _ _ => true
  | .varRef _ inner => inner.isFixedName
  | .assign _ target _ => target.isOfKind .varField
  | .opAssign _ target _ _ => target.isOfKind .varField
  | .binary _ left op _ => op != "**" || left.endsSafely
  | .unary _ op _ => op != "~"
  | _ => false

/-- Whether all nodes of a tree can stand in a plain one. -/
def isPlain : Node → Bool :=
  everywhere plain

theorem isPlain_iff {node : Node} :
    node.isPlain = true ↔ node.plain = true ∧ ∀ child ∈ node.children, child.isPlain = true :=
  everywhere_iff

/-! ## No statement is broken -/

/-- The document of a plain tree has no hard line. -/
theorem hasHardLine_layout {node : Node} (isPlain : node.isPlain = true) (options : Options)
    (parents : List Node) : (node.layout options parents).hasHardLine = false := by
  induction node using induction_children generalizing parents with
  | step node ih =>
    obtain ⟨here, inside⟩ := isPlain_iff.1 isPlain
    have below : (node.children.any fun child =>
        (child.layout options (node :: parents)).hasHardLine) = false := by
      rw [List.any_eq_false]
      intro child mem
      simp [ih child mem (inside child mem)]
    obtain ⟨noBlock, noParams, inLine, calm⟩ : node.kind ≠ .methodAddBlock ∧ node.kind ≠ .params ∧
        node.isBody = false ∧ node.breaksLines = false := by
      cases node with
      | name | literal | symbolLit | varRef | varField | array | assoc | hash | assign | opAssign
      | valueList | binary | unary | paren => exact ⟨nofun, nofun, rfl, rfl⟩
      | _ => cases here
    rw [hasHardLine_layout_eq (.inr noBlock) (absurd · noParams) inLine, calm, below]
    rfl

/-! ## The marks of a plain tree -/

open Mark in
mutual

/-- The marks of a plain tree. -/
def flat : Node → List Mark
  | .name kind _ text => [⟨0, kind.tokenKind text, text⟩]
  | .literal kind _ raw => [⟨0, kind.tokenKind, raw⟩]
  | .symbolLit _ value => [⟨0, .symbol, value.nameText⟩]
  | .varRef _ inner | .vcall _ inner => flat inner
  | .varField _ inner => flatOption inner
  | .array _ elements => op "[" :: inLine (flatList elements) ++ [op "]"]
  | .assoc _ key value =>
      flat key ++ (if key.isLabel then [] else behind 1 [op "=>"]) ++ behind 1 (flat value)
  | .hash _ entries =>
      op "\x7b" ::
        if entries.isEmpty then [op "\x7d"]
        else behind 1 (inLine (flatList entries)) ++ behind 1 [op "\x7d"]
  | .assign _ target value => flat target ++ behind 1 [op "="] ++ behind 1 (flat value)
  | .opAssign _ target sign value => flat target ++ behind 1 [op sign] ++ behind 1 (flat value)
  | .valueList _ values => inLine (flatList values)
  | .binary _ left sign right =>
      if Layout.tightOperators.contains sign then flat left ++ op sign :: flat right
      else flat left ++ behind 1 [operator sign] ++ behind 1 (flat right)
  | .unary _ sign operand =>
      if sign = "not" then word "not" :: behind 1 (flat operand) else op sign :: flat operand
  | .paren _ expr => op "(" :: flat expr ++ [op ")"]
  | _ => []
termination_by structural node => node

/-- The marks of the trees of a list. -/
def flatList : List Node → List (List Mark)
  | [] => []
  | node :: rest => flat node :: flatList rest
termination_by structural nodes => nodes

/-- The marks of a tree that may be absent. -/
def flatOption : Option Node → List Mark
  | none => []
  | some node => flat node
termination_by structural node => node

end

@[simp]
theorem flatList_eq_map (nodes : List Node) : flatList nodes = nodes.map flat := by
  induction nodes with
  | nil => rfl
  | cons node rest ih => simp [flatList, ih]

/-- The marks of a plain tree are the same at every depth, below any nodes and for all options. -/
theorem marks_eq_flat {node : Node} (isPlain : node.isPlain = true) (options : Options)
    (parents : List Node) (level : Nat) : node.marks options parents level = node.flat := by
  induction node using induction_children generalizing parents level with
  | step node ih =>
    obtain ⟨here, inside⟩ := isPlain_iff.1 isPlain
    have unbroken (parents : List Node) : node.isBroken options parents = false :=
      hasHardLine_layout isPlain options parents
    have below (child : Node) (mem : child ∈ node.children) (parents : List Node) (level : Nat) :
        child.marks options parents level = child.flat :=
      ih child mem (inside child mem) parents level
    clear ih inside isPlain
    simp only [children, fields] at below
    cases node with
    | name | literal => rfl
    | symbolLit pos value => rfl
    | varRef pos inner => simp [marks, flat, below inner (by simp [Field.toList])]
    | varField pos inner =>
        cases inner with
        | none => rfl
        | some inner => simp [marks, flat, flatOption, below inner (by simp [Field.toList])]
    | array pos nodes | hash pos nodes | valueList pos nodes =>
        have each (parents : List Node) (level : Nat) :
            nodes.map (marks options parents level) = nodes.map flat :=
          List.map_congr_left fun child mem => below child (by simp [Field.toList, mem]) _ _
        simp [marks, flat, unbroken, each, Mark.listed, Mark.inLine, Mark.braced, Mark.hanging,
          Mark.breakIf, Options.gap]
    | paren pos expr => simp [marks, flat, below expr (by simp [Field.toList])]
    | unary pos op operand => simp [marks, flat, below operand (by simp [Field.toList])]
    | assoc pos left right | assign pos left right | opAssign pos left op right
    | binary pos left op right =>
        simp [marks, flat, unbroken, below left (by simp [Field.toList]),
          below right (by simp [Field.toList]), Mark.hanging, Mark.breakIf, Options.gap]
    | _ => cases here

end Node

/-! ## Every width can be written -/

/-- Whether a piece is text. -/
def Piece.isText : Piece → Bool
  | .text _ => true
  | .newline _ => false

namespace Doc

/-- A document of one line, whatever the group around it does. -/
def OneLine (doc : Doc) : Prop :=
  ∀ (level : Nat) (broken : Bool), ∀ piece ∈ doc.pieces level broken, piece.isText = true

mutual

/-- A document without hard lines is text within a flat group. -/
theorem isText_of_flat (level : Nat) : (doc : Doc) → doc.hasHardLine = false →
    ∀ piece ∈ doc.pieces level false, piece.isText = true
  | .text value, _ => by simp [pieces, Piece.isText]
  | .concat parts, soft => isText_of_flatParts level parts soft
  | .group contents, soft => by
      rw [pieces, show contents.hasHardLine = false from soft]
      exact isText_of_flat level contents soft
  | .indent contents, soft => isText_of_flat (level + 1) contents soft
  | .line hard, soft => by
      obtain rfl : hard = false := soft
      simp [pieces, Piece.isText]

theorem isText_of_flatParts (level : Nat) : (parts : List Doc) → anyHardLine parts = false →
    ∀ piece ∈ piecesOfParts level false parts, piece.isText = true
  | [], _ => by simp [piecesOfParts]
  | part :: rest, soft => by
      rw [anyHardLine, Bool.or_eq_false_iff] at soft
      intro piece mem
      rw [piecesOfParts, List.mem_append] at mem
      rcases mem with mem | mem
      · exact isText_of_flat level part soft.1 piece mem
      · exact isText_of_flatParts level rest soft.2 piece mem

end

theorem oneLine_text (value : String) : OneLine (.text value) := by
  intro level broken
  simp [pieces, Piece.isText]

theorem oneLine_concat {parts : List Doc} (each : ∀ part ∈ parts, OneLine part) :
    OneLine (.concat parts) := by
  intro level broken piece mem
  rw [pieces, piecesOfParts_eq_flatMap, List.mem_flatMap] at mem
  obtain ⟨part, isPart, mem⟩ := mem
  exact each part isPart level broken piece mem

theorem oneLine_group {contents : Doc} (soft : (Doc.group contents).hasHardLine = false) :
    OneLine (.group contents) := by
  intro level broken
  rw [pieces, show contents.hasHardLine = false from soft]
  exact isText_of_flat level contents soft

/-- Lines at the left edge can be written with every width. -/
theorem widthError?_program {items : List Doc} (each : ∀ item ∈ items, OneLine item)
    (width : Int) : (Layout.program items).widthError? width = none := by
  have calm (piece : Piece) (isText : piece.isText = true) : piece.widthError? width = none := by
    cases piece with
    | text value => rfl
    | newline level => cases isText
  have edge := Piece.widthError?_newline_zero width
  have between (items : List Doc) (each : ∀ item ∈ items, OneLine item) :
      ∀ piece ∈ (Layout.stmts items).pieces 0 true, piece.widthError? width = none := by
    unfold Layout.stmts join
    rw [pieces, piecesOfParts_eq_flatMap]
    induction items with
    | nil => simp
    | cons first rest ih =>
        obtain ⟨own, others⟩ := List.forall_mem_cons.1 each
        have start : ∀ piece ∈ first.pieces 0 true, piece.widthError? width = none :=
          fun piece mem => calm piece (own 0 true piece mem)
        cases rest with
        | nil => simpa using start
        | cons second rest =>
            rw [List.intersperse_cons_cons, List.flatMap_cons, List.flatMap_cons]
            intro piece mem
            rcases List.mem_append.1 mem with mem | mem
            · exact start piece mem
            rcases List.mem_append.1 mem with mem | mem
            · obtain rfl : piece = .newline 0 := by simpa [hardLine, pieces] using mem
              exact edge
            · exact ih others piece mem
  rw [widthError?, List.findSome?_eq_none_iff]
  unfold Layout.program
  split
  · simp [pieces, Piece.widthError?]
  · intro piece mem
    simp only [pieces, piecesOfParts, hardLine, List.append_nil, Bool.true_or, if_true,
      List.mem_append, List.mem_singleton] at mem
    rcases mem with mem | rfl
    · exact between items each piece mem
    · exact edge

end Doc

namespace Node

/-- A plain tree other than a list of values stays on one line, whatever stands around it. -/
theorem oneLine_layout {node : Node} (shaped : node.wellShaped = true)
    (isPlain : node.isPlain = true) (isInline : node.isInline = true) (options : Options)
    (parents : List Node) : (node.layout options parents).OneLine := by
  induction node using induction_children generalizing parents with
  | step node ih =>
    obtain ⟨here, inside⟩ := wellShaped_iff.1 shaped
    obtain ⟨isFirm, allPlain⟩ := isPlain_iff.1 isPlain
    have soft := hasHardLine_layout isPlain options parents
    have below (child : Node) (mem : child ∈ node.children) (isInline : child.isInline = true)
        (parents : List Node) : (child.layout options parents).OneLine :=
      ih child mem (inside child mem) (allPlain child mem) isInline parents
    clear ih inside shaped allPlain isPlain
    simp only [children, fields] at below
    cases node with
    | name kind pos text => exact Doc.oneLine_text text
    | literal kind pos raw => exact Doc.oneLine_text raw
    | symbolLit pos value =>
        have isInline : value.isInline = true := by
          cases value <;> first | rfl | cases here
        have inner := below value (by simp [Field.toList]) isInline
        refine Doc.oneLine_concat fun part mem => ?_
        rcases List.mem_pair.1 mem with rfl | rfl
        · exact Doc.oneLine_text ":"
        · exact inner _
    | varRef pos inner => exact below inner (by simp [Field.toList]) (isInline_of_isVariable here) _
    | varField pos inner =>
        cases inner with
        | none => cases here
        | some inner =>
            exact below inner (by simp [Field.toList]) (isInline_of_isAssignable here) _
    | array pos elements =>
        simp only [layout, Layout.array] at soft ⊢
        cases elements
        · exact Doc.oneLine_text "[]"
        · exact Doc.oneLine_group soft
    | hash pos entries =>
        simp only [layout, Layout.hash] at soft ⊢
        cases entries
        · exact Doc.oneLine_text "\x7b\x7d"
        · exact Doc.oneLine_group soft
    | assoc pos key value =>
        simp only [layout, Layout.assoc] at soft ⊢
        generalize key.isLabel = labelled at soft ⊢
        cases labelled <;> exact Doc.oneLine_group soft
    | assign pos target value =>
        simp only [layout, Layout.assign] at soft ⊢
        generalize value.staysOnLine = stays at soft ⊢
        cases stays <;> exact Doc.oneLine_group soft
    | opAssign pos target op value => exact Doc.oneLine_group soft
    | binary pos left op right =>
        simp only [shaped, Bool.and_eq_true] at here
        have first := below left (by simp [Field.toList]) (isInline_of_isExpr here.1.2)
        have second := below right (by simp [Field.toList]) (isInline_of_isExpr here.2)
        simp only [layout, Layout.binary] at soft ⊢
        generalize Layout.tightOperators.contains op = tight at soft ⊢
        cases tight with
        | true =>
            refine Doc.oneLine_concat fun part mem => ?_
            simp only [List.mem_cons, List.not_mem_nil, or_false] at mem
            rcases mem with rfl | rfl | rfl
            · exact first _
            · exact Doc.oneLine_text op
            · exact second _
        | false => exact Doc.oneLine_group soft
    | unary pos op operand =>
        simp only [shaped, Bool.and_eq_true] at here
        have inner := below operand (by simp [Field.toList]) (isInline_of_isExpr here.2)
        simp only [layout, Layout.unary]
        split
        all_goals
          refine Doc.oneLine_concat fun part mem => ?_
          rcases List.mem_pair.1 mem with rfl | rfl
          · exact Doc.oneLine_text _
          · exact inner _
    | paren pos expr =>
        have inner := below expr (by simp [Field.toList]) (isInline_of_isValue here)
        refine Doc.oneLine_concat fun part mem => ?_
        simp only [List.mem_cons, List.not_mem_nil, or_false] at mem
        rcases mem with rfl | rfl | rfl
        · exact Doc.oneLine_text "("
        · exact inner _
        · exact Doc.oneLine_text ")"
    | valueList pos values => cases isInline
    | _ => cases isFirm

/-- The marks of a plain program: its statements, each with the end of its line. -/
def flatProgram (stmts : List Node) : List Mark :=
  stmts.flatMap fun stmt => stmt.flat ++ [Mark.newline]

theorem stmts_eq_flatMap {items : List (List Mark)} (each : ∀ item ∈ items, Mark.Flush item)
    (options : Options) :
    Mark.stmts options 0 items ++ Mark.breakIf (!items.isEmpty) =
      items.flatMap fun item => item ++ [Mark.newline] := by
  have edge : options.indent 0 = 0 := by simp [Options.indent]
  have rest (items : List (List Mark)) (each : ∀ item ∈ items, Mark.Flush item) :
      (items.flatMap fun item => [Mark.newline] ++ Mark.behind 0 item) ++ [Mark.newline] =
        Mark.newline :: items.flatMap fun item => item ++ [Mark.newline] := by
    induction items with
    | nil => rfl
    | cons item items ih =>
        obtain ⟨⟨first, others, rfl, none⟩, more⟩ := List.forall_mem_cons.1 each
        have kept : { first with blanks := 0 } = first := by rw [← none]
        simp [Mark.behind, kept, ← ih more]
  cases items with
  | nil => rfl
  | cons item items =>
      have more := rest items (List.forall_mem_cons.1 each).2
      simp only [Mark.stmts, Mark.join, Mark.breakIf, edge, List.isEmpty_cons, Bool.not_false,
        if_true, List.append_assoc, List.flatMap_cons, more]
      simp

/-- A plain program is written, with any width, as its marks if no line of these ends with white
space. -/
theorem write_program {pos : Pos} {stmts : List Node}
    (shaped : (Node.program pos stmts).wellShaped = true)
    (allPlain : ∀ stmt ∈ stmts, stmt.isPlain = true)
    (trimmed : Text.isTrimmed (Mark.written (flatProgram stmts)) = true) (options : Options) :
    ((Node.program pos stmts).layout options []).write options.indentWidth =
      .ok (String.ofList (Mark.written (flatProgram stmts))) := by
  obtain ⟨here, inside⟩ := wellShaped_iff.1 shaped
  have isInline (stmt : Node) (mem : stmt ∈ stmts) : stmt.isInline = true :=
    isInline_of_isStmt (List.all_eq_true.1 here stmt mem)
  have isShaped (stmt : Node) (mem : stmt ∈ stmts) : stmt.wellShaped = true :=
    inside stmt (by simpa [children, fields, Field.toList] using mem)
  have marks : (Node.program pos stmts).marks options [] 0 = flatProgram stmts := by
    have each : stmts.map (Node.marks options [.program pos stmts] 0) = stmts.map flat :=
      List.map_congr_left fun stmt mem => marks_eq_flat (allPlain stmt mem) options _ 0
    have flush : ∀ item ∈ stmts.map flat, Mark.Flush item := by
      rw [← each]
      intro item mem
      obtain ⟨stmt, isStmt, rfl⟩ := List.mem_map.1 mem
      exact marks_flush (isShaped stmt isStmt) (Bool.and_eq_true_iff.1 (isInline stmt isStmt)).1 _ 0
    have joined := stmts_eq_flatMap flush options
    simp only [Node.marks, marksList_eq_map, each]
    simpa [flatProgram, List.flatMap_map] using joined
  have chars := @chars_layout options _ shaped [] 0 true (absurd · Bool.noConfusion) fun _ => rfl
  rw [marks] at chars
  have oneLine : ∀ item ∈ stmts.map (Node.layout options [.program pos stmts]), item.OneLine := by
    intro item mem
    obtain ⟨stmt, isStmt, rfl⟩ := List.mem_map.1 mem
    exact oneLine_layout (isShaped stmt isStmt) (allPlain stmt isStmt) (isInline stmt isStmt) _ _
  have accepted : ((Node.program pos stmts).layout options []).widthError? options.indentWidth =
      none := by
    simpa [layout] using Doc.widthError?_program oneLine options.indentWidth
  have rendered := Doc.render_eq_chars (chars ▸ trimmed)
  rw [chars] at rendered
  rw [Doc.write, accepted, ← rendered, String.ofList_toList]

end Node

end RubyFormat
