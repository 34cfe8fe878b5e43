import RubyFormat.Proofs.Reread

/-!
# Round trips

The text of a plain program has the tree of the program, up to places, whatever the width of the
indentation is.  Two kinds of plain program are assignments of literals and operations on numbers
and instance variables.
-/

namespace RubyFormat

open Mark

/-! ## Reading statements again -/

/-- A sign that leads a value ends no list of statements and stands within one. -/
theorem Token.inside_of_lead {token : Token} (leads : token.sign.lead ≠ 0) :
    token.endsStmts [] = false ∧ token.isBreak = false ∧ token.kind ≠ .comment := by
  obtain ⟨noBreak, noComment⟩ := Sign.noGap leads
  have noEnd : token.kind ≠ .eof := by
    intro kind
    simp [Sign.lead, Token.sign, kind] at leads
  have noSemicolon : token.isOp ";" = false := by
    refine Bool.eq_false_iff.2 fun isOp => leads ?_
    simp only [Token.isOp, Bool.and_eq_true, beq_iff_eq] at isOp
    rw [Token.sign, isOp.1, isOp.2]
    decide
  refine ⟨?_, ?_, noComment⟩
  · simp [Token.endsStmts, Parse.endsBody, noEnd]
  · simp [Token.isBreak, noSemicolon, show token.kind ≠ .newline from noBreak]

namespace Node

/-- The lines of a plain program are read to its statements. -/
theorem reread_stmts {stmts : List Node}
    (each : ∀ stmt ∈ stmts, stmt.Starts ∧ Rereads .stmt 1 stmt) {t : ParseState}
    (holds : t.Holds (signs (flatProgram stmts))) :
    ∃ again t', again.map unplaced = stmts.map unplaced ∧ t'.current.kind = .eof ∧
      Reads (.stmts []) t (.list again) t' := by
  induction stmts generalizing t with
  | nil =>
      have isEnd : t.current.kind = .eof := by
        rw [ParseState.current, List.map_eq_nil_iff.1 holds.ahead]
        exact holds.eof
      exact ⟨[], t, rfl, isEnd, .stmtsDone (by simp [Token.endsStmts, isEnd])⟩
  | cons stmt rest ih =>
      obtain ⟨⟨starts, rereads⟩, others⟩ := List.forall_mem_cons.1 each
      have line : signs (flatProgram (stmt :: rest)) =
          signs stmt.flat ++ newline.sign :: signs (flatProgram rest) := by
        rw [flatProgram, List.flatMap_cons, signs_append, signs_append, List.append_assoc]
        rfl
      rw [line] at holds
      obtain ⟨noEnd, noBreak, noComment⟩ := Token.inside_of_lead (holds.starts starts).1
      obtain ⟨first, t₁, same, held, reads⟩ := rereads t _ holds (show 0 < 1 by decide)
      have isBreak : t₁.current.kind = .newline := (Token.kind_of_sign held.current).1
      obtain ⟨again, t', sameRest, isEnd, readsRest⟩ := ih others held.next
      refine ⟨first :: again, t', by simp [same, sameRest], isEnd,
        .stmtsMore noEnd noBreak noComment reads ?_ ?_ ?_ (.stmtsBreak ?_ ?_ readsRest)⟩
      · simp [isBreak]
      · simp [Parse.endsBody]
      · simp [Token.endsStatement, isBreak]
      · simp [Token.endsStmts, Parse.endsBody, isBreak]
      · simp [Token.isBreak, isBreak]

/-- A plain statement is a value. -/
theorem isValue_of_isStmt {stmt : Node} (isStmt : stmt.isStmt = true)
    (isPlain : stmt.isPlain = true) : stmt.isValue = true := by
  have here := (isPlain_iff.1 isPlain).1
  cases stmt <;> first | exact isStmt | cases here

/-- The text of a plain program has the tree of the program. -/
theorem roundTrip_of_isPlain {source : String} {pos : Pos} {stmts : List Node}
    (parsed : Node.ofSource source = .ok (.program pos stmts))
    (allPlain : ∀ stmt ∈ stmts, stmt.isPlain = true) (options : Options) :
    ∃ doc text again, (Node.program pos stmts).toDoc options = .ok doc ∧
      doc.write options.indentWidth = .ok text ∧ Node.ofSource text = .ok again ∧
      again.same (.program pos stmts) = true := by
  have shaped := wellShaped_of_source parsed
  have read := read_of_source parsed allPlain
  obtain ⟨here, inside⟩ := wellShaped_iff.1 shaped
  have isShaped (stmt : Node) (mem : stmt ∈ stmts) : stmt.wellShaped = true :=
    inside stmt (by simpa [children, fields, Field.toList] using mem)
  have isValue (stmt : Node) (mem : stmt ∈ stmts) : stmt.isValue = true :=
    isValue_of_isStmt (List.all_eq_true.1 here stmt mem) (allPlain stmt mem)
  have trimmed := isTrimmed_flatProgram fun stmt mem => (read stmt mem).spelled
  have readable (stmt : Node) (mem : stmt ∈ stmts) : Readable stmt.endsSafely stmt.flat :=
    readable_flat (isShaped stmt mem) (allPlain stmt mem)
      (.inl (isRight_of_isValue (isValue stmt mem))) (read stmt mem).spelled
  obtain ⟨tokens, scanned, same, eof⟩ :=
    scan_written (readBack_flatProgram readable (show Opens none from ⟨rfl, rfl⟩)) Pos.start false
  have holds : (ParseState.start tokens).Holds (signs (flatProgram stmts)) := by
    refine ⟨same, eof, fun sign mem => ?_, List.cons_ne_nil _ _⟩
    obtain ⟨mark, isMark, rfl⟩ := List.mem_map.1 mem
    simp only [flatProgram, List.mem_flatMap, List.mem_append, List.mem_singleton] at isMark
    obtain ⟨stmt, isStmt, inLine | rfl⟩ := isMark
    · exact (read stmt isStmt).calm mark.sign (List.mem_map_of_mem inLine)
    · exact (absurd · (by decide))
  have rereads (stmt : Node) (mem : stmt ∈ stmts) : stmt.Starts ∧ Rereads .stmt 1 stmt := by
    have again := again (isShaped stmt mem) (allPlain stmt mem) (read stmt mem).isBound
    have starts := again.starts (isRight_of_isValue (isValue stmt mem))
    exact ⟨starts, rereads_stmt starts (again.value (isValue stmt mem) true (absurd · (by decide)))⟩
  obtain ⟨again, t, sameStmts, isEnd, reads⟩ := reread_stmts rereads holds
  have reparsed : Node.ofSource (String.ofList (written (flatProgram stmts))) =
      .ok (.program (ParseState.start tokens).current.pos again) := by
    rw [Node.ofSource, Tokens.ofSource, String.toList_ofList, scanned]
    simp only [Tokens.parse_of_derives eof (.program reads isEnd)]
  exact ⟨_, _, _, toDoc_of_wellShaped options shaped, write_program shaped allPlain trimmed options,
    reparsed, (same_iff _ _).2 (by simpa [unplaced] using sameStmts)⟩

/-! ## Assignments of literals -/

mutual

/-- Whether a node is a literal, or is made of literals by minus signs, arrays and hashes. -/
def isLiteral : Node → Bool
  | .literal _ _ _ | .symbolLit _ _ => true
  | .varRef _ (.name .keyword _ text) => literalKeywords.contains text
  | .unary _ sign (.literal kind _ _) => sign == "-" && (kind == .int || kind == .float)
  | .array _ elements => allLiterals elements
  | .hash _ entries => allLiteralEntries entries
  | _ => false
termination_by structural node => node

/-- Whether all nodes of a list are made of literals. -/
def allLiterals : List Node → Bool
  | [] => true
  | node :: rest => isLiteral node && allLiterals rest
termination_by structural nodes => nodes

/-- Whether all nodes of a list are entries with a label or literals as key and literals as value. -/
def allLiteralEntries : List Node → Bool
  | [] => true
  | entry :: rest => isLiteralEntry entry && allLiteralEntries rest
termination_by structural entries => entries

/-- Whether a node is an entry with a label or literals as key and literals as value. -/
def isLiteralEntry : Node → Bool
  | .assoc _ key value => (key.isLabel || isLiteral key) && isLiteral value
  | _ => false
termination_by structural entry => entry

end

/-- Whether a node assigns literals to a variable; several of them only with `=`. -/
def isLiteralAssignment : Node → Bool
  | .assign _ (.varField _ _) (.valueList _ values) => values.all isLiteral
  | .assign _ (.varField _ _) value | .opAssign _ (.varField _ _) _ value => value.isLiteral
  | _ => false

@[simp]
theorem allLiterals_eq_all (nodes : List Node) : allLiterals nodes = nodes.all isLiteral := by
  induction nodes with
  | nil => rfl
  | cons node rest ih => simp [allLiterals, ih]

@[simp]
theorem allLiteralEntries_eq_all (nodes : List Node) :
    allLiteralEntries nodes = nodes.all isLiteralEntry := by
  induction nodes with
  | nil => rfl
  | cons node rest ih => simp [allLiteralEntries, ih]

theorem isPlain_name (kind : NameKind) (pos : Pos) (text : String) :
    (Node.name kind pos text).isPlain = true := by
  refine isPlain_iff.2 ⟨rfl, ?_⟩
  simp [children, fields, Field.toList]

/-- Literals are plain, and so are the entries of literals. -/
theorem isPlain_of_isLiteral {node : Node} (shaped : node.wellShaped = true)
    (literal : node.isLiteral = true ∨ node.isLiteralEntry = true) : node.isPlain = true := by
  induction node using induction_children with
  | step node ih =>
    obtain ⟨here, inside⟩ := wellShaped_iff.1 shaped
    have below (child : Node) (mem : child ∈ node.children)
        (literal : child.isLiteral = true ∨ child.isLiteralEntry = true) : child.isPlain = true :=
      ih child mem (inside child mem) literal
    clear ih inside
    refine isPlain_iff.2 ?_
    cases node with
    | literal kind pos raw => exact ⟨rfl, nofun⟩
    | symbolLit pos value =>
        refine ⟨rfl, ?_⟩
        cases value with
        | name kind place text => simp [children, fields, Field.toList, isPlain_name]
        | _ => cases here
    | varRef pos inner =>
        obtain ⟨place, text, rfl, known⟩ : ∃ place text, inner = .name .keyword place text ∧
            literalKeywords.contains text = true := by
          rcases literal with literal | literal
          · unfold isLiteral at literal
            split at literal <;> simp_all
          · cases literal
        refine ⟨known, ?_⟩
        simp [children, fields, Field.toList, isPlain_name]
    | unary pos sign operand =>
        obtain ⟨⟨kind, place, raw, rfl⟩, rfl⟩ :
            (∃ kind place raw, operand = .literal kind place raw) ∧ sign = "-" := by
          rcases literal with literal | literal
          · unfold isLiteral at literal
            split at literal <;> simp_all
          · cases literal
        refine ⟨rfl, fun child mem => below child mem (.inl ?_)⟩
        obtain rfl : child = .literal kind place raw := by
          simpa [children, fields, Field.toList] using mem
        rfl
    | array pos elements =>
        refine ⟨rfl, fun child mem => below child mem (.inl ?_)⟩
        rcases literal with literal | literal
        · simp only [isLiteral, allLiterals_eq_all, List.all_eq_true] at literal
          exact literal child (by simpa [children, fields, Field.toList] using mem)
        · cases literal
    | hash pos entries =>
        refine ⟨rfl, fun child mem => below child mem (.inr ?_)⟩
        rcases literal with literal | literal
        · simp only [isLiteral, allLiteralEntries_eq_all, List.all_eq_true] at literal
          exact literal child (by simpa [children, fields, Field.toList] using mem)
        · cases literal
    | assoc pos key value =>
        have both : (key.isLabel = true ∨ key.isLiteral = true) ∧ value.isLiteral = true := by
          rcases literal with literal | literal
          · cases literal
          · simpa [isLiteralEntry] using literal
        refine ⟨rfl, fun child mem => ?_⟩
        have isPart : child = key ∨ child = value := by
          simpa [children, fields, Field.toList] using mem
        rcases isPart with rfl | rfl
        · rcases both.1 with isLabel | isLiteral
          · obtain ⟨place, text, rfl⟩ := name_of_isLabel isLabel
            exact isPlain_name ..
          · exact below child mem (.inl isLiteral)
        · exact below child mem (.inl both.2)
    | _ => rcases literal with literal | literal <;> cases literal

theorem isPlain_varField {pos : Pos} {inner : Option Node}
    (shaped : (Node.varField pos inner).wellShaped = true) :
    (Node.varField pos inner).isPlain = true := by
  have here := (wellShaped_iff.1 shaped).1
  refine isPlain_iff.2 ⟨rfl, ?_⟩
  match inner with
  | none => simp [children, fields, Field.toList]
  | some (.name kind place text) => simp [children, fields, Field.toList, isPlain_name]

/-- An assignment of literals is plain. -/
theorem isPlain_of_isLiteralAssignment {node : Node} (shaped : node.wellShaped = true)
    (assigns : node.isLiteralAssignment = true) : node.isPlain = true := by
  have inside := (wellShaped_iff.1 shaped).2
  have both {place : Pos} {inner : Option Node} {value : Node}
      (parts : node.children = [.varField place inner, value])
      (isPlain : value.wellShaped = true → value.isPlain = true) :
      ∀ child ∈ node.children, child.isPlain = true := by
    rw [parts] at inside ⊢
    obtain ⟨target, rest⟩ := List.forall_mem_cons.1 inside
    have shaped : value.wellShaped = true := rest value (List.mem_singleton_self value)
    simp [isPlain_varField target, isPlain shaped]
  unfold isLiteralAssignment at assigns
  split at assigns
  next values =>
    refine isPlain_iff.2 ⟨rfl, both rfl fun shaped => isPlain_iff.2 ⟨rfl, fun value isValue => ?_⟩⟩
    have isLiteral : value.isLiteral = true :=
      List.all_eq_true.1 assigns value (by simpa [children, fields, Field.toList] using isValue)
    exact isPlain_of_isLiteral ((wellShaped_iff.1 shaped).2 value isValue) (.inl isLiteral)
  next => exact isPlain_iff.2 ⟨rfl, both rfl fun shaped => isPlain_of_isLiteral shaped (.inl assigns)⟩
  next => exact isPlain_iff.2 ⟨rfl, both rfl fun shaped => isPlain_of_isLiteral shaped (.inl assigns)⟩
  next => cases assigns

/-- Whether a tree is a program that only assigns literals. -/
def assignsLiterals : Node → Bool
  | .program _ stmts => stmts.all isLiteralAssignment
  | _ => false

/--
A program that only assigns literals to variables is written, with any width, to a text that has the
tree of the program.
-/
theorem roundTrip_of_assignsLiterals {source : String} {tree : Node}
    (parsed : Node.ofSource source = .ok tree) (literals : tree.assignsLiterals = true)
    (options : Options) :
    ∃ doc text again, tree.toDoc options = .ok doc ∧ doc.write options.indentWidth = .ok text ∧
      Node.ofSource text = .ok again ∧ again.same tree = true := by
  cases tree with
  | program pos stmts =>
      refine roundTrip_of_isPlain parsed (fun stmt mem => ?_) options
      refine isPlain_of_isLiteralAssignment ?_ (List.all_eq_true.1 literals stmt mem)
      exact (wellShaped_iff.1 (wellShaped_of_source parsed)).2 stmt
        (by simpa [children, fields, Field.toList] using mem)
  | _ => cases literals

/-- Lists, nested collections, signs and continued lines are among the literals. -/
theorem roundTrip_of_assignsLiterals_nested :
    let source :=
      "A = [ - 1,:a=, [/b\\\n c/i]],\n 'd'\n$e ||= \x7bf: \x7b:+=>-2.5e1,nil=>self\x7d\x7d"
    ∃ tree doc text again, Node.ofSource source = .ok tree ∧ tree.assignsLiterals = true ∧
      tree.toDoc {} = .ok doc ∧ doc.write ({} : Options).indentWidth = .ok text ∧
      Node.ofSource text = .ok again ∧ again.same tree = true := by
  intro source
  obtain ⟨tree, parsed, literals⟩ := exists_of_source
    (show (Node.ofSource source).toOption.any assignsLiterals = true by decide +kernel)
  obtain ⟨doc, text, again, laid, written, reparsed, same⟩ :=
    roundTrip_of_assignsLiterals parsed literals {}
  exact ⟨tree, doc, text, again, parsed, literals, laid, written, reparsed, same⟩

/-! ## Operations -/

/-- Whether a node is made of integers and instance variables by operators and parentheses. -/
def isOperation : Node → Bool
  | .literal .int _ _ | .varRef _ (.name .ivar _ _) => true
  | .paren _ expr => isOperation expr
  | .binary _ left _ right => isOperation left && isOperation right
  | .unary _ sign operand => ["-", "+", "!", "not"].contains sign && isOperation operand
  | _ => false
termination_by structural node => node

/-- An operation ends safely, and it is plain. -/
theorem isPlain_of_isOperation {node : Node} (operates : node.isOperation = true) :
    node.endsSafely = true ∧ node.isPlain = true := by
  fun_induction isOperation node with
  | case1 pos raw => exact ⟨rfl, isPlain_iff.2 ⟨rfl, nofun⟩⟩
  | case2 pos place text =>
      refine ⟨rfl, isPlain_iff.2 ⟨rfl, ?_⟩⟩
      simp [children, fields, Field.toList, isPlain_name]
  | case3 pos expr ih =>
      refine ⟨rfl, isPlain_iff.2 ⟨rfl, ?_⟩⟩
      simpa [children, fields, Field.toList] using (ih operates).2
  | case4 pos left sign right ihLeft ihRight =>
      obtain ⟨first, second⟩ := Bool.and_eq_true_iff.1 operates
      obtain ⟨safe, plainLeft⟩ := ihLeft first
      obtain ⟨safeRight, plainRight⟩ := ihRight second
      refine ⟨safeRight, isPlain_iff.2 ⟨by simp [plain, safe], ?_⟩⟩
      simp [children, fields, Field.toList, plainLeft, plainRight]
  | case5 pos sign operand ih =>
      obtain ⟨known, inner⟩ := Bool.and_eq_true_iff.1 operates
      obtain ⟨safe, isPlain⟩ := ih inner
      refine ⟨safe, isPlain_iff.2 ⟨?_, ?_⟩⟩
      · rw [plain, bne_iff_ne]
        rintro rfl
        cases known
      · simpa [children, fields, Field.toList] using isPlain
  | case6 => cases operates

/-- Whether a tree is a program of operations. -/
def operates : Node → Bool
  | .program _ stmts => stmts.all isOperation
  | _ => false

/--
A program of operations on integers and instance variables is written, with any width, to a text
that has the tree of the program; the only parentheses in it are those of the program.
-/
theorem roundTrip_of_operates {source : String} {tree : Node}
    (parsed : Node.ofSource source = .ok tree) (operates : tree.operates = true)
    (options : Options) :
    ∃ doc text again, tree.toDoc options = .ok doc ∧ doc.write options.indentWidth = .ok text ∧
      Node.ofSource text = .ok again ∧ again.same tree = true := by
  cases tree with
  | program pos stmts =>
      refine roundTrip_of_isPlain parsed (fun stmt mem => ?_) options
      exact (isPlain_of_isOperation (List.all_eq_true.1 operates stmt mem)).2
  | _ => cases operates

/-- Operators of all levels, some of them at the end of a line. -/
theorem roundTrip_of_operates_levels :
    let source := "not (1 .. - @a ** -2) and\n !@b<=>+3 || 4%5-6<<7&8|9<@c&&(@d or 1)\n1...2"
    ∃ tree doc text again, Node.ofSource source = .ok tree ∧ tree.operates = true ∧
      tree.toDoc {} = .ok doc ∧ doc.write ({} : Options).indentWidth = .ok text ∧
      Node.ofSource text = .ok again ∧ again.same tree = true := by
  intro source
  obtain ⟨tree, parsed, isOperation⟩ := exists_of_source
    (show (Node.ofSource source).toOption.any operates = true by decide +kernel)
  obtain ⟨doc, text, again, laid, written, reparsed, same⟩ :=
    roundTrip_of_operates parsed isOperation {}
  exact ⟨tree, doc, text, again, parsed, isOperation, laid, written, reparsed, same⟩

end Node

end RubyFormat
