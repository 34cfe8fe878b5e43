import Mathlib.Data.List.Infix
import RubyFormat.Proofs.Legible

/-!
# Precedence

Every operator has a rank, and a tree binds as its operators do if no operand of an operator has a
lower rank than the operator asks for on that side.  Such a tree needs no parentheses but those that
it has as nodes.  Every plain tree of a source binds so, and each of its marks is spelled as a
lexeme; both follow from one induction over what the rules of the grammar read.
-/

namespace RubyFormat

/-! ## Ranks -/

/-- How tight a binary operator binds. -/
def operatorRank (operator : String) : Nat :=
  if operator = "and" ∨ operator = "or" then 3
  else if operator = ".." ∨ operator = "..." then 5
  else if operator = "**" then 17
  else match OperatorLevel.all.findIdx? (·.operators.contains operator) with
    | some index => 6 + index
    | none => 20

/-- Whether an operator takes an operation of its own level as its left operand. -/
def chainsLeft (operator : String) : Bool :=
  operator == "and" || operator == "or" ||
    OperatorLevel.all.any fun level => level.chains && level.operators.contains operator

/-- The lowest rank of a left operand. -/
def leftRank (operator : String) : Nat :=
  if chainsLeft operator then operatorRank operator else operatorRank operator + 1

/-- The lowest rank of a right operand; a power takes a minus there. -/
def rightRank (operator : String) : Nat :=
  if operator = "**" then 16 else operatorRank operator + 1

/-- How tight a unary operator binds, and the lowest rank of its operand. -/
def unaryRank (operator : String) : Nat :=
  if operator = "not" then 4 else if operator = "-" then 16 else 18

namespace Node

/-- How tight the operator at the root of a tree binds. -/
def rank : Node → Nat
  | .assign _ _ value => if value.isValueList then 1 else 2
  | .opAssign _ _ _ _ => 2
  | .binary _ _ operator _ => operatorRank operator
  | .unary _ operator _ => unaryRank operator
  | _ => 19

/-- Whether the nodes right below a node bind as tight as they have to, and names are the ones that
their texts spell. -/
def bound : Node → Bool
  | .name .ident _ text => NameKind.ident.tokenKind text == .ident
  | .symbolLit _ value =>
      !value.nameText.isEmpty && value.same (Parse.symbolName value.pos value.nameText)
  | .array _ elements => elements.all fun element => 4 ≤ element.rank
  | .assoc _ key value => 4 ≤ key.rank && 4 ≤ value.rank
  | .assign _ _ value | .opAssign _ _ _ value => 2 ≤ value.rank
  | .valueList _ values => 2 ≤ values.length && values.all fun value => 2 ≤ value.rank
  | .binary _ left operator right =>
      leftRank operator ≤ left.rank && rightRank operator ≤ right.rank
  | .unary _ operator operand => unaryRank operator ≤ operand.rank
  | _ => true

/-- Whether all nodes of a tree bind as tight as they have to. -/
def isBound : Node → Bool :=
  everywhere bound

theorem isBound_iff {node : Node} :
    node.isBound = true ↔ node.bound = true ∧ ∀ child ∈ node.children, child.isBound = true :=
  everywhere_iff

end Node

/-- The lowest rank of what a rule reads. -/
def Rule.rank : Rule → Nat
  | .assignment takesList => if takesList then 1 else 2
  | .values | .listedValue => 2
  | .expression | .joined _ => 3
  | .negated | .element | .entry => 4
  | .range => 5
  | .operations levels => 15 - levels.length
  | .chain _ tighter _ => 14 - tighter.length
  | .minus => 16
  | .power => 17
  | .unary => 18
  | .operand | .suffixes _ | .primary => 19
  | .items item _ | .entries item _ => item.rank
  | _ => 1

/-- The ranks of the operators of a level follow from the levels behind it. -/
theorem rank_of_level {level : OperatorLevel} {tighter : List OperatorLevel}
    (known : level :: tighter <:+ OperatorLevel.all) {operator : String}
    (mem : operator ∈ level.operators) :
    operatorRank operator = 14 - tighter.length ∧
      leftRank operator = (if level.chains then 14 else 15) - tighter.length ∧
      rightRank operator = 15 - tighter.length := by
  have table : ∀ levels ∈ OperatorLevel.all.tails, ∀ level ∈ levels.head?,
      ∀ operator ∈ level.operators, operatorRank operator = 14 - levels.tail.length ∧
        leftRank operator = (if level.chains then 14 else 15) - levels.tail.length ∧
        rightRank operator = 15 - levels.tail.length := by decide
  exact table _ (List.mem_tails _ _ |>.2 known) level rfl operator mem

/-! ## Signs that are spelled -/

namespace Sign

/-- A sign whose spelling is found as a lexeme behind a number. -/
def isWritten (sign : Sign) : Bool :=
  match sign.spelling with
  | [] => false
  | first :: body =>
      Lexeme.find (some ⟨.int, "1", .start, false⟩) first body = .ok ⟨sign.kind, body.length⟩

theorem spelled_of_isWritten {sign : Sign} (isWritten : sign.isWritten = true) : sign.Spelled := by
  unfold Sign.isWritten at isWritten
  split at isWritten
  · cases isWritten
  next first body same =>
    exact ⟨_, first, body, [], rfl, by rw [List.append_nil]; exact of_decide_eq_true isWritten, same⟩

/-- The operators and brackets of plain trees. -/
def fixed : List String :=
  Mark.infixSigns ++ Node.unaryOperators ++ [",", "(", ")", "[", "]", "\x7b", "\x7d"]

theorem spelled_operator {text : String} (known : text ∈ fixed) :
    (Mark.operator text).sign.Spelled := by
  have table : ∀ text ∈ fixed, (Mark.operator text).sign.isWritten = true := by decide
  exact spelled_of_isWritten (table text known)

/-- A sign that is no call operator. -/
def Calm (sign : Sign) : Prop :=
  sign.kind = .op → sign.text ∉ callOperators

theorem calm_operator {text : String} (known : text ∈ fixed) : (Mark.operator text).sign.Calm := by
  have table : ∀ text ∈ fixed, (Mark.operator text).sign.kind = .op →
      (Mark.operator text).sign.text ∉ callOperators := by decide
  exact table text known

/-- A token of a source that is not behind a call operator is spelled as a lexeme, unless it is a
line break or a comment. -/
theorem spelled_of_lexedAfter {previous : Option Token} {token : Token}
    (lexed : token.LexedAfter previous) (noCall : Lexeme.afterCallOperator previous = false)
    (noBreak : token.kind ≠ .newline) (noComment : token.kind ≠ .comment) :
    token.sign.Spelled := by
  obtain ⟨isBreak, -⟩ | isComment | ⟨first, body, rest, found, text⟩ := lexed
  · exact absurd isBreak noBreak
  · exact absurd isComment noComment
  · refine ⟨previous, first, body, rest, noCall, found, ?_⟩
    by_cases isSymbol : token.kind = .symbol
    · rw [isSymbol] at found
      obtain ⟨isColon, -⟩ := Lexeme.symbol?_of_find found
      simp [spelling, Mark.spelling, Token.sign, text, Lexeme.text, isSymbol, isColon]
    · simp [spelling, Mark.spelling, Token.sign, text, Lexeme.text]

/-- A name is no constant. -/
theorem Spelled.tokenKind_ident {text : String} (spelled : (Sign.mk .ident text).Spelled) :
    NameKind.ident.tokenKind text = .ident := by
  obtain ⟨previous, first, body, rest, -, found, same⟩ := spelled
  obtain ⟨-, kind⟩ := Lexeme.wordKind_of_find found (.inr (.inr rfl))
  have same : text.toList = first :: body := same
  rw [← same, Lexeme.wordKind] at kind
  split at kind
  · cases kind
  split at kind
  · cases kind
  next noUpper => rw [NameKind.tokenKind, if_neg noUpper]

end Sign

/-! ## Tokens of a source -/

namespace Token

variable {token : Token}

theorem noCall_of_isWord {word : String} (isWord : token.isWord word = true)
    (other : word ∉ callOperators) : token.isOpIn callOperators = false := by
  rw [← text_of_isWord isWord] at other
  simpa [isOpIn] using fun _ => other

theorem noCall_of_isOp {operator : String} (isOp : token.isOp operator = true)
    (other : operator ∉ callOperators) : token.isOpIn callOperators = false := by
  simp only [Token.isOp, Bool.and_eq_true, beq_iff_eq] at isOp
  rw [← isOp.2] at other
  simpa [isOpIn] using fun _ => other

theorem noCall_of_isOpIn {operators : List String} (isOp : token.isOpIn operators = true)
    (others : ∀ operator ∈ operators, operator ∉ callOperators) :
    token.isOpIn callOperators = false := by
  have other := others token.text (text_of_isOpIn isOp)
  simpa [isOpIn] using fun _ => other

theorem noCall_of_kind (noOp : token.kind ≠ .op) : token.isOpIn callOperators = false := by
  simp [isOpIn, noOp]

theorem noCall_of_isBreak (isBreak : token.isBreak = true) :
    token.isOpIn callOperators = false := by
  simp only [Token.isBreak, Bool.or_eq_true, beq_iff_eq] at isBreak
  rcases isBreak with isBreak | isBreak
  · exact noCall_of_kind (by simp [isBreak])
  · exact noCall_of_isOp isBreak (by decide)

theorem noCall_of_either {word other : String}
    (isWord : (token.isWord word || token.isWord other) = true)
    (noCall : word ∉ callOperators ∧ other ∉ callOperators) :
    token.isOpIn callOperators = false := by
  rcases Bool.or_eq_true_iff.1 isWord with isWord | isWord
  · exact noCall_of_isWord isWord noCall.1
  · exact noCall_of_isWord isWord noCall.2

theorem noCall_of_binary (known : token.text ∈ Node.binaryOperators) :
    token.isOpIn callOperators = false := by
  have table : ∀ text ∈ Node.binaryOperators, text ∉ callOperators := by decide
  simpa [isOpIn] using fun _ => table token.text known

theorem text_of_unary
    (isWord : (token.isWord "!" || token.isWord "~" || token.isWord "+") = true) :
    token.text ∈ Node.unaryOperators ∧ unaryRank token.text = 18 ∧
      token.isOpIn callOperators = false := by
  simp only [Bool.or_eq_true] at isWord
  rcases isWord with (isWord | isWord) | isWord <;>
    exact ⟨by rw [text_of_isWord isWord]; decide, by rw [text_of_isWord isWord]; decide,
      noCall_of_isWord isWord (by decide)⟩

theorem isOperand_of_leaf? {node : Node} (found : token.leaf? = some node) :
    token.kind ∉ [.op, .newline, .comment, .eof] := by
  intro mem
  simp only [List.mem_cons, List.not_mem_nil, or_false] at mem
  unfold leaf? at found
  rcases mem with kind | kind | kind | kind <;> simp [kind] at found

end Token

namespace ParseState

variable {s s₁ : ParseState}

/-- The tokens ahead are those of a source, and no call operator stands right before them. -/
def Lexed (s : ParseState) : Prop :=
  s.close.kind = .eof ∧
    ∃ previous, Lexeme.afterCallOperator previous = false ∧ Tokens.lexedAfter previous s.ahead

namespace Lexed

theorem next (lexed : s.Lexed) (noCall : s.current.isOpIn callOperators = false) :
    s.next.Lexed := by
  obtain ⟨ahead, close, scopes, depth⟩ := s
  obtain ⟨eof, previous, free, tokens⟩ := lexed
  refine ⟨eof, ?_⟩
  cases ahead with
  | nil => exact ⟨none, rfl, trivial⟩
  | cons token rest => exact ⟨some token, noCall, tokens.2⟩

theorem pastNewlines (lexed : s.Lexed) : s.pastNewlines.Lexed := by
  obtain ⟨ahead, close, scopes, depth⟩ := s
  induction ahead with
  | nil => exact lexed
  | cons token rest ih =>
      by_cases isBreak : token.kind = .newline
      · have behind : ParseState.Lexed ⟨rest, close, scopes, depth⟩ :=
          lexed.next (Token.noCall_of_kind (by simp [current, isBreak]))
        have same : ParseState.pastNewlines ⟨token :: rest, close, scopes, depth⟩ =
            ParseState.pastNewlines ⟨rest, close, scopes, depth⟩ := by
          simp [ParseState.pastNewlines, isBreak]
        rw [same]
        exact ih behind
      · have same : ParseState.pastNewlines ⟨token :: rest, close, scopes, depth⟩ =
            ⟨token :: rest, close, scopes, depth⟩ := by
          simp [ParseState.pastNewlines, isBreak]
        rw [same]
        exact lexed

theorem skips (lexed : s.Lexed) (passed : s.Skips s₁) : s₁.Lexed := by
  rw [passed.1]
  exact lexed.pastNewlines

theorem atDepth (lexed : s.Lexed) (depth : Nat) : (s.atDepth depth).Lexed :=
  lexed

theorem spelled (lexed : s.Lexed) (isToken : s.current.kind ∉ [.newline, .comment, .eof]) :
    s.current.sign.Spelled := by
  obtain ⟨ahead, close, scopes, depth⟩ := s
  obtain ⟨eof, previous, free, tokens⟩ := lexed
  simp only [List.mem_cons, List.not_mem_nil, or_false, not_or] at isToken
  obtain ⟨noBreak, noComment, noEof⟩ := isToken
  cases ahead with
  | nil => exact absurd eof noEof
  | cons token rest => exact Sign.spelled_of_lexedAfter tokens.1 free noBreak noComment

end Lexed

end ParseState

/-! ## Nodes that can stand in a plain tree, or become a target there -/

namespace Node

/-- Whether a node is a bare name, which an assignment can make its target. -/
def isBareName : Node → Bool
  | .vcall _ (.name _ _ _) | .varRef _ (.name _ _ _) => true
  | _ => false

/-- A plain tree or a bare name. -/
def Simple (node : Node) : Prop :=
  node.isPlain = true ∨ node.isBareName = true

/-- A simple node that is no bare name is plain, and so are the nodes right below it. -/
theorem Simple.isPlain {node : Node} (simple : node.Simple) (noName : node.isBareName = false) :
    node.plain = true ∧ ∀ child ∈ node.children, child.isPlain = true := by
  rcases simple with isPlain | isBare
  · exact isPlain_iff.1 isPlain
  · exact absurd (noName.symm.trans isBare) Bool.false_ne_true

theorem Simple.operands {pos : Pos} {left right : Node} {text : String}
    (simple : (Node.binary pos left text right).Simple) : left.Simple ∧ right.Simple := by
  obtain ⟨-, below⟩ := simple.isPlain rfl
  simp only [children, fields, List.flatMap_cons, List.flatMap_nil, Field.toList,
    List.append_nil, List.nil_append, List.singleton_append, List.forall_mem_cons] at below
  exact ⟨.inl below.1, .inl below.2.1⟩

/-- The node right below a simple one is simple. -/
theorem Simple.inner {node inner : Node} (simple : node.Simple) (noName : node.isBareName = false)
    (only : node.children = [inner]) : inner.Simple :=
  .inl ((simple.isPlain noName).2 inner (by simp [only]))

/-- A target that is a variable was a bare name. -/
theorem bareName_of_target {expr target : Node} {s s₁ : ParseState}
    (made : (Parse.target expr).run s = .ok (target, s₁))
    (isField : target.isOfKind .varField = true) (shaped : target.wellShaped = true) :
    expr.isBareName = true ∧ target.flat = expr.flat ∧
      (expr.isBound = true → target.isBound = true) ∧ s₁.current = s.current ∧
      (s.Lexed → s₁.Lexed) := by
  have here := (wellShaped_iff.1 shaped).1
  unfold Parse.target at made
  split at made <;>
    simp only [ParseM.run_bind_ok, ParseM.run_declare_ok, ParseM.run_pure_ok,
      ParseM.run_throw_ok, ParseM.exists_and_eq_left, Prod.mk.injEq] at made
  case h_1 =>
    obtain ⟨-, rfl, rfl⟩ := made
    refine ⟨rfl, rfl, fun bound => isBound_iff.2 ⟨rfl, ?_⟩, rfl, id⟩
    simpa [children, fields, Field.toList] using (isBound_iff.1 bound).2
  case h_3 inner _ =>
    obtain ⟨rfl, rfl⟩ := made
    refine ⟨?_, rfl, fun bound => isBound_iff.2 ⟨rfl, ?_⟩, rfl, id⟩
    · cases inner with
      | name => rfl
      | _ => cases here
    · simpa [children, fields, Field.toList] using (isBound_iff.1 bound).2
  all_goals
    obtain ⟨rfl, -⟩ := made
    cases isField

end Node

/-- Nothing simple is made of what a rule goes on with, unless that is simple itself. -/
def Rule.KeepsSimple (field : Field Node) : Rule → Prop
  | .joined left | .chain _ _ left | .suffixes left | .block _ left =>
      field.All Node.Simple → left.Simple
  | .callSuffix _ => ¬ field.All Node.Simple
  | _ => True

theorem Derives.keepsSimple {fits : ParamList → Node → Prop} {rule : Rule} {s s' : ParseState}
    {field : Field Node} (reads : Derives fits rule s field s') : rule.KeepsSimple field := by
  induction reads with
  | joinedDone | chainDone | suffixesDone | blockNone => exact fun simple => Field.all_node.1 simple
  | joinedMore _ _ _ _ _ ih | chainMore _ _ _ _ _ _ ih => exact fun simple => (ih simple).operands.1
  | chainOnce => exact fun simple => (Field.all_node.1 simple).operands.1
  | suffixesCall _ _ _ ih₁ ih₂ =>
      intro simple
      exact absurd (Field.all_node.2 (ih₂ simple)) ih₁
  | suffixesIndex _ _ _ _ ih =>
      intro simple
      cases ((ih simple).isPlain rfl).1
  | callShorthand _ _ _ _ _ ih | callBare _ _ _ _ _ ih | callArgs _ _ _ _ _ _ ih =>
      intro simple
      cases ((ih simple).isPlain rfl).1
  | constPath | blockBraces | blockDo =>
      intro simple
      cases ((Field.all_node.1 simple).isPlain rfl).1
  | _ => trivial

/-! ## What a source gives -/

/-- A tree that binds at least as tight as given, and whose marks are all spelled as lexemes and
call nothing. -/
structure Node.Read (rank : Nat) (node : Node) : Prop where
  rank : rank ≤ node.rank
  isBound : node.isBound = true
  spelled : ∀ sign ∈ Mark.signs node.flat, sign.Spelled
  calm : ∀ sign ∈ Mark.signs node.flat, sign.Calm

/-- The rules that read plain trees. -/
def Rule.isPlain : Rule → Bool
  | .stmts words => words.isEmpty
  | .stmt | .assignment _ | .values | .listedValue | .expression | .joined _ | .negated | .range
  | .operations _ | .chain _ _ _ | .minus | .power | .unary | .operand | .suffixes _ | .primary
  | .element | .entry => true
  | .items .listedValue none | .entries .element _ | .entries .entry _ => true
  | _ => false

/-- What has to hold of what a rule goes on with. -/
def Rule.CarriesRead : Rule → Prop
  | .joined left => left.Read 3
  | .operations levels => levels <:+ OperatorLevel.all
  | .chain level tighter left =>
      level :: tighter <:+ OperatorLevel.all ∧
        left.Read ((if level.chains then 14 else 15) - tighter.length)
  | .suffixes expr => expr.Read 19
  | _ => True

namespace Node

open Mark

/-- Whether the operator of a node, if it has one, is an operator of the grammar. -/
def hasKnownOperator : Node → Bool
  | .binary _ _ operator _ => binaryOperators.contains operator
  | .unary _ operator _ => unaryOperators.contains operator
  | .opAssign _ _ operator _ => Parse.assignOperators.contains operator
  | _ => true

/-- Whether the mark of a node is its own token. -/
def isToken : Node → Bool
  | .name _ _ _ | .literal _ _ _ | .symbolLit _ _ => true
  | _ => false

theorem mem_of_mem_inLine {items : List (List Mark)} {sign : Sign}
    (isSign : sign ∈ signs (inLine items)) :
    sign = (op ",").sign ∨ ∃ item ∈ items, sign ∈ signs item := by
  cases items with
  | nil => cases isSign
  | cons first rest =>
      rw [inLine, join, signs_append, List.mem_append] at isSign
      rcases isSign with isSign | isSign
      · exact .inr ⟨first, List.mem_cons_self, isSign⟩
      · simp only [signs, List.map_flatMap, List.mem_flatMap] at isSign
        obtain ⟨item, mem, isSign⟩ := isSign
        have isSign : sign ∈ signs (op "," :: behind 1 item) := isSign
        rw [signs_cons, signs_behind] at isSign
        rcases List.mem_cons.1 isSign with rfl | isSign
        · exact .inl rfl
        · exact .inr ⟨item, List.mem_cons_of_mem _ mem, isSign⟩

/-- What holds of the operators of plain trees, and of the marks of the nodes right below, holds of
the marks of a node that is no token. -/
theorem forall_signs_flat {node : Node} {holds : Sign → Prop}
    (operators : ∀ text ∈ Sign.fixed, holds (operator text).sign)
    (noToken : node.isToken = false) (known : node.hasKnownOperator = true)
    (below : ∀ child ∈ node.children, ∀ sign ∈ signs child.flat, holds sign) :
    ∀ sign ∈ signs node.flat, holds sign := by
  intro sign isSign
  simp only [children, fields] at below
  have fixed (text : String) (known : text ∈ Sign.fixed)
      (noKeyword : keywords.contains text = false) : holds (op text).sign := by
    have written := operators text known
    rwa [operator, if_neg (by simpa using noKeyword)] at written
  have listed (nodes : List Node) (inside : ∀ node ∈ nodes, ∀ sign ∈ signs node.flat, holds sign)
      (isSign : sign ∈ signs (inLine (nodes.map flat))) : holds sign := by
    rcases mem_of_mem_inLine isSign with rfl | ⟨item, isItem, isSign⟩
    · exact fixed "," (by decide) (by decide)
    · obtain ⟨child, mem, rfl⟩ := List.mem_map.1 isItem
      exact inside child mem sign isSign
  cases node with
  | name | literal | symbolLit => cases noToken
  | varRef pos inner | vcall pos inner => exact below inner (by simp [Field.toList]) sign isSign
  | varField pos inner =>
      cases inner with
      | none => cases isSign
      | some inner => exact below inner (by simp [Field.toList]) sign isSign
  | valueList pos values =>
      simp only [flat, flatList_eq_map] at isSign
      exact listed values (by simpa [Field.toList] using below) isSign
  | array pos elements =>
      simp only [flat, flatList_eq_map, signs_append, signs_cons, signs_nil, List.mem_append,
        List.mem_cons, List.not_mem_nil, or_false] at isSign
      rcases isSign with (rfl | isSign) | rfl
      · exact fixed "[" (by decide) (by decide)
      · exact listed elements (by simpa [Field.toList] using below) isSign
      · exact fixed "]" (by decide) (by decide)
  | hash pos entries =>
      simp only [flat, flatList_eq_map, signs_cons, List.mem_cons] at isSign
      rcases isSign with rfl | isSign
      · exact fixed "\x7b" (by decide) (by decide)
      split at isSign
      · obtain rfl := List.mem_singleton.1 isSign
        exact fixed "\x7d" (by decide) (by decide)
      · simp only [signs_append, signs_behind, List.mem_append] at isSign
        rcases isSign with isSign | isSign
        · exact listed entries (by simpa [Field.toList] using below) isSign
        · obtain rfl := List.mem_singleton.1 isSign
          exact fixed "\x7d" (by decide) (by decide)
  | paren pos expr =>
      simp only [flat, signs_append, signs_cons, signs_nil, List.mem_append, List.mem_cons,
        List.not_mem_nil, or_false] at isSign
      rcases isSign with (rfl | isSign) | rfl
      · exact fixed "(" (by decide) (by decide)
      · exact below expr (by simp [Field.toList]) sign isSign
      · exact fixed ")" (by decide) (by decide)
  | unary pos text operand =>
      have known := List.contains_iff_mem.1 known
      have table : ∀ text ∈ unaryOperators, text ≠ "not" → keywords.contains text = false := by
        decide
      simp only [flat] at isSign
      split at isSign
      next =>
        simp only [signs_behind, signs_cons, List.mem_cons] at isSign
        rcases isSign with rfl | isSign
        · exact operators "not" (by decide)
        · exact below operand (by simp [Field.toList]) sign isSign
      next noNot =>
        simp only [signs_cons, List.mem_cons] at isSign
        rcases isSign with rfl | isSign
        · exact fixed text (by simp [Sign.fixed, known]) (table text known noNot)
        · exact below operand (by simp [Field.toList]) sign isSign
  | binary pos left text right =>
      have known : text ∈ Sign.fixed := by
        simp [Sign.fixed, infixSigns, List.contains_iff_mem.1 known]
      simp only [flat] at isSign
      split at isSign
      next isTight =>
        have table : ∀ text ∈ Layout.tightOperators, keywords.contains text = false := by decide
        simp only [signs_append, signs_cons, List.mem_append, List.mem_cons] at isSign
        rcases isSign with isSign | rfl | isSign
        · exact below left (by simp [Field.toList]) sign isSign
        · exact fixed text known (table text (List.contains_iff_mem.1 isTight))
        · exact below right (by simp [Field.toList]) sign isSign
      next =>
        simp only [signs_append, signs_behind, signs_cons, signs_nil, List.mem_append,
          List.mem_cons, List.not_mem_nil, or_false] at isSign
        rcases isSign with (isSign | rfl) | isSign
        · exact below left (by simp [Field.toList]) sign isSign
        · exact operators text known
        · exact below right (by simp [Field.toList]) sign isSign
  | assoc pos key value =>
      simp only [flat, signs_append, signs_behind, List.mem_append] at isSign
      rcases isSign with (isSign | isSign) | isSign
      · exact below key (by simp [Field.toList]) sign isSign
      · split at isSign
        · cases isSign
        · obtain rfl := List.mem_singleton.1 isSign
          exact fixed "=>" (by decide) (by decide)
      · exact below value (by simp [Field.toList]) sign isSign
  | assign pos target value =>
      simp only [flat, signs_append, signs_behind, List.mem_append] at isSign
      rcases isSign with (isSign | isSign) | isSign
      · exact below target (by simp [Field.toList]) sign isSign
      · obtain rfl := List.mem_singleton.1 isSign
        exact fixed "=" (by decide) (by decide)
      · exact below value (by simp [Field.toList]) sign isSign
  | opAssign pos target text value =>
      have known := List.contains_iff_mem.1 known
      have table : ∀ text ∈ Parse.assignOperators, keywords.contains text = false := by decide
      simp only [flat, signs_append, signs_behind, List.mem_append] at isSign
      rcases isSign with (isSign | isSign) | isSign
      · exact below target (by simp [Field.toList]) sign isSign
      · obtain rfl := List.mem_singleton.1 isSign
        exact fixed text (by simp [Sign.fixed, infixSigns, known]) (table text known)
      · exact below value (by simp [Field.toList]) sign isSign
  | _ => cases isSign

/-- The name in a symbol is the one that its text spells. -/
theorem bound_symbolName (pos : Pos) (text : String) :
    (Parse.symbolName pos text).bound = true := by
  unfold Parse.symbolName
  split
  · rfl
  split
  next first head =>
    split
    · rfl
    next noUpper =>
      split
      · simp [bound, NameKind.tokenKind, head, noUpper]
      · rfl
  · rfl

namespace Read

variable {rank : Nat} {node : Node}

theorem weaken {lower : Nat} (read : node.Read rank) (le : lower ≤ rank) : node.Read lower :=
  { read with rank := le.trans read.rank }

/-- A node is read well if the nodes right below are, and bind as it asks for. -/
theorem of_children (rank_le : rank ≤ node.rank) (bound : node.bound = true)
    (below : ∀ child ∈ node.children, child.Read 0)
    (noToken : node.isToken = false) (known : node.hasKnownOperator = true) : node.Read rank where
  rank := rank_le
  isBound := isBound_iff.2 ⟨bound, fun child mem => (below child mem).isBound⟩
  spelled := forall_signs_flat (fun _ => Sign.spelled_operator) noToken known
    fun child mem => (below child mem).spelled
  calm := forall_signs_flat (fun _ => Sign.calm_operator) noToken known
    fun child mem => (below child mem).calm

theorem any (read : node.Read rank) : node.Read 0 :=
  read.weaken (Nat.zero_le rank)

theorem name {kind : NameKind} {pos : Pos} {text : String}
    (bound : (Node.name kind pos text).bound = true)
    (spelled : (Sign.mk (kind.tokenKind text) text).Spelled)
    (noOp : kind.tokenKind text ≠ .op) : (Node.name kind pos text).Read 19 where
  rank := le_refl _
  isBound := isBound_iff.2 ⟨bound, by simp [children, fields, Field.toList]⟩
  spelled := List.forall_mem_singleton.2 spelled
  calm := List.forall_mem_singleton.2 fun isOp => absurd isOp noOp

theorem varRef {inner : Node} {pos : Pos} (read : inner.Read 19) : (Node.varRef pos inner).Read 19 :=
  .of_children (le_refl _) rfl (forall_children_one rfl read.any) rfl rfl

theorem vcall {inner : Node} {pos : Pos} (read : inner.Read 19) : (Node.vcall pos inner).Read 19 :=
  .of_children (le_refl _) rfl (forall_children_one rfl read.any) rfl rfl

/-- A token that is a name is read well. -/
theorem ident {token : Token} (kind : token.kind = .ident) (spelled : token.sign.Spelled) :
    (Node.name .ident token.pos token.text).Read 19 := by
  have spelled : (Sign.mk .ident token.text).Spelled := by
    rw [← kind]
    exact spelled
  have same := spelled.tokenKind_ident
  exact .name (by simp [bound, same]) (by rw [same]; exact spelled) (by rw [same]; exact nofun)

theorem literal {kind : LiteralKind} {pos : Pos} {text : String}
    (spelled : (Sign.mk kind.tokenKind text).Spelled) : (Node.literal kind pos text).Read 19 where
  rank := le_refl _
  isBound := isBound_iff.2 ⟨rfl, by simp [children, fields, Field.toList]⟩
  spelled := List.forall_mem_singleton.2 spelled
  calm := List.forall_mem_singleton.2 fun isOp => by cases kind <;> cases isOp

theorem symbolLit {pos : Pos} {text : String} (nonempty : text.isEmpty = false)
    (spelled : (Sign.mk .symbol text).Spelled) :
    (Node.symbolLit pos (Parse.symbolName pos text)).Read 19 where
  rank := le_refl _
  isBound := by
    refine isBound_iff.2 ⟨?_, ?_⟩
    · simp only [bound, Bool.and_eq_true, Bool.not_eq_true']
      exact ⟨nonempty, (same_iff _ _).2 rfl⟩
    · have inner : (Parse.symbolName pos text).isBound = true :=
        isBound_iff.2 ⟨bound_symbolName pos text, by simp [Parse.symbolName, children, fields,
          Field.toList]⟩
      simpa [children, fields, Field.toList] using inner
  spelled := List.forall_mem_singleton.2 spelled
  calm := List.forall_mem_singleton.2 nofun

/-- A token that is an operand by itself is read well. -/
theorem leaf {token : Token} (found : token.leaf? = some node) (spelled : token.sign.Spelled) :
    node.Read 19 := by
  have spelled : (Sign.mk token.kind token.text).Spelled := spelled
  unfold Token.leaf? at found
  cases kind : token.kind with
  | int | float | string | regexp =>
      rw [kind] at found spelled
      cases found
      exact .literal spelled
  | ivar | cvar | gvar =>
      rw [kind] at found spelled
      cases found
      exact .varRef (.name rfl spelled nofun)
  | symbol =>
      rw [kind] at found spelled
      simp only at found
      split at found
      · cases found
      next nonempty =>
        cases found
        exact .symbolLit (by simpa using nonempty) spelled
  | keyword =>
      rw [kind] at found spelled
      simp only at found
      split at found
      · cases found
        exact .varRef (.name rfl spelled nofun)
      · cases found
  | _ =>
      rw [kind] at found
      cases found

theorem binary {pos : Pos} {left right : Node} {text : String} (known : text ∈ binaryOperators)
    (first : left.Read (leftRank text)) (second : right.Read (rightRank text)) :
    (Node.binary pos left text right).Read (operatorRank text) :=
  .of_children (le_refl _) (by simp [bound, first.rank, second.rank])
    (forall_children_two rfl first.any second.any) rfl
    (List.contains_iff_mem.2 known)

/-- An operation binds as tight as its operator if its operands bind tight enough. -/
theorem operation {pos : Pos} {left right : Node} {text : String} {below first second : Nat}
    (known : text ∈ binaryOperators) (leftRead : left.Read first) (rightRead : right.Read second)
    (ranks : below ≤ operatorRank text ∧ leftRank text ≤ first ∧ rightRank text ≤ second) :
    (Node.binary pos left text right).Read below :=
  (Read.binary known (leftRead.weaken ranks.2.1) (rightRead.weaken ranks.2.2)).weaken ranks.1

theorem unary {pos : Pos} {operand : Node} {text : String} (known : text ∈ unaryOperators)
    (read : operand.Read rank) (same : unaryRank text = rank) :
    (Node.unary pos text operand).Read rank :=
  .of_children (le_of_eq same.symm) (by simp [bound, same, read.rank])
    (forall_children_one rfl read.any) rfl (List.contains_iff_mem.2 known)

theorem assoc {pos : Pos} {key value : Node} (first : key.Read 4) (second : value.Read 4) :
    (Node.assoc pos key value).Read 4 :=
  .of_children (by simp [Node.rank]) (by simp [bound, first.rank, second.rank])
    (forall_children_two rfl first.any second.any) rfl rfl

/-- The right side that is made of values. -/
theorem ofValues {pos : Pos} {values : List Node} (nonempty : values ≠ [])
    (simple : (Node.ofValues pos values).Simple) (each : ∀ value ∈ values, value.Read 2) :
    (Node.ofValues pos values).Read 2 := by
  unfold Node.ofValues at simple ⊢
  split at simple
  · cases (simple.isPlain rfl).1
  next noSplat =>
    rw [if_neg noSplat]
    match values, nonempty, each with
    | [value], _, each => exact each value List.mem_cons_self
    | first :: second :: rest, _, each =>
        refine .of_children (by simp [Node.rank]) ?_ ?_ rfl rfl
        · simpa [bound] using fun value mem => (each value mem).rank
        · simpa [children, fields, Field.toList] using fun value mem => (each value mem).any

/-- The target that is made of a bare name. -/
theorem target {target : Node} (read : node.Read rank) (same : target.flat = node.flat)
    (bound : node.isBound = true → target.isBound = true) : target.Read 0 where
  rank := Nat.zero_le _
  isBound := bound read.isBound
  spelled := same ▸ read.spelled
  calm := same ▸ read.calm

end Read

theorem isValueList_of_isValue {node : Node} (isValue : node.isValue = true) : node.isValueList = false := by
  cases node <;> first | rfl | cases isValue

theorem simple_of_ofValues {pos : Pos} {values : List Node}
    (simple : (Node.ofValues pos values).Simple) : ∀ value ∈ values, value.Simple := by
  unfold Node.ofValues at simple
  split at simple
  · cases (simple.isPlain rfl).1
  split at simple
  next value =>
    intro other mem
    obtain rfl := List.mem_singleton.1 mem
    exact simple
  next =>
    intro value mem
    exact .inl ((simple.isPlain rfl).2 value (by simpa [children, fields, Field.toList] using mem))

theorem not_simple_withComment (stmt remark : Node) : ¬ (stmt.withComment remark).Simple := by
  intro simple
  cases stmt <;> cases (simple.isPlain rfl).1

end Node

namespace Rule

theorem isPlain_rightSide {takesList : Bool} : (rightSide takesList).isPlain = true := by
  cases takesList <;> rfl

theorem carriesRead_rightSide {takesList : Bool} : (rightSide takesList).CarriesRead := by
  cases takesList <;> trivial

theorem le_rank_rightSide {takesList : Bool} : 2 ≤ (rightSide takesList).rank := by
  cases takesList <;> decide

/-- The rule for the items of a list that can be plain. -/
theorem isPlain_item {item : Rule} {closer : Option String}
    (isPlain : (items item closer).isPlain = true) :
    item.isPlain = true ∧ item.CarriesRead ∧ closer = none := by
  cases item with
  | listedValue =>
      cases closer with
      | none => exact ⟨rfl, trivial, rfl⟩
      | some closer => cases isPlain
  | _ => cases isPlain

theorem isPlain_entry {item : Rule} {closer : String}
    (isPlain : (entries item closer).isPlain = true) :
    item.isPlain = true ∧ item.CarriesRead := by
  cases item with
  | element | entry => exact ⟨rfl, trivial⟩
  | _ => cases isPlain

end Rule

/-- What a rule reads from the tokens of a source binds, as far as it is simple. -/
def Rule.Binds (rule : Rule) (s : ParseState) (field : Field Node) (s' : ParseState) : Prop :=
  rule.isPlain = true → rule.CarriesRead → field.All Node.Simple → s.Lexed →
    s'.Lexed ∧ field.All (Node.Read rule.rank)

namespace Derives

open Node

variable {fits : ParamList → Node → Prop} {rule : Rule} {s s' : ParseState} {field : Field Node}
  {reads : Derives fits rule s field s'}

section Families

variable (parts : reads.Parts Rule.Binds) (simple : field.All Simple) (lexed : s.Lexed)
include parts simple lexed

theorem read_statements (family : rule.family = .statements) (isPlain : rule.isPlain = true) :
    s'.Lexed ∧ field.All (Node.Read rule.rank) := by
  cases parts with
  | stmtsDone => exact ⟨lexed, List.forall_mem_nil _⟩
  | stmtsBreak _ isBreak _ _ ih =>
      exact ih isPlain trivial simple (lexed.next (Token.noCall_of_isBreak isBreak))
  | stmtsComment => cases ((simple _ List.mem_cons_self).isPlain rfl).1
  | stmtsRemark => exact absurd (simple _ List.mem_cons_self) (not_simple_withComment _ _)
  | stmtsLast _ _ _ _ _ _ _ ih => exact ih rfl trivial simple lexed
  | stmtsMore _ _ _ _ _ _ _ _ _ ih₁ _ ih₂ =>
      obtain ⟨first, others⟩ := List.forall_mem_cons.1 simple
      obtain ⟨lexed, read⟩ := ih₁ rfl trivial (Field.all_node.2 first) lexed
      obtain ⟨lexed, more⟩ := ih₂ isPlain trivial others lexed
      exact ⟨lexed, List.forall_mem_cons.2 ⟨Field.all_node.1 read, more⟩⟩
  | stmt _ _ _ _ ih => exact ih rfl trivial simple lexed
  | _ => first | (cases family; done) | cases isPlain

theorem read_assignments (family : rule.family = .assignments) :
    s'.Lexed ∧ field.All (Node.Read rule.rank) := by
  cases parts with
  | @unassigned takesList _ _ _ _ _ _ _ ih =>
      obtain ⟨lexed, read⟩ := ih rfl trivial simple lexed
      refine ⟨lexed, fun node mem => (read node mem).weaken ?_⟩
      cases takesList <;> decide
  | @assign takesList _ _ _ _ _ expr target value reads isEqual made skips right _ ih₁ _ ih₂ =>
      obtain ⟨isField, below⟩ := (Field.all_node.1 simple).isPlain rfl
      have shaped := (target_wellShaped made (reads.shaped trivial).node).1
      obtain ⟨isBare, same, bound, stays, moved⟩ := bareName_of_target made isField shaped
      obtain ⟨lexed, read⟩ := ih₁ rfl trivial (Field.all_node.2 (.inr isBare)) lexed
      have lexed := ((moved lexed).next (stays ▸ Token.noCall_of_isOp isEqual (by decide))).skips
        skips
      have isItem : value.Simple := .inl (below value (by simp [children, fields, Field.toList]))
      obtain ⟨lexed, more⟩ := ih₂ Rule.isPlain_rightSide Rule.carriesRead_rightSide
        (Field.all_node.2 isItem) lexed
      have second : value.Read 2 := (Field.all_node.1 more).weaken (Rule.le_rank_rightSide)
      refine ⟨lexed,
        Field.all_node.2 (.of_children ?_ (by simp [Node.bound, second.rank]) ?_ rfl rfl)⟩
      · cases takesList with
        | true =>
            simp only [Rule.rank, Node.rank, if_true]
            split <;> decide
        | false =>
            have isValue : value.isValue = true := (right.shaped trivial).kind
            simp [Rule.rank, Node.rank, isValueList_of_isValue isValue]
      · simpa [children, fields, Field.toList]
          using ⟨(Field.all_node.1 read).target same bound, second.any⟩
  | @opAssign takesList _ _ _ _ _ expr target value reads _ isOp made skips _ _ ih₁ _ ih₂ =>
      obtain ⟨isField, below⟩ := (Field.all_node.1 simple).isPlain rfl
      have shaped := (target_wellShaped made (reads.shaped trivial).node).1
      obtain ⟨isBare, same, bound, stays, moved⟩ := bareName_of_target made isField shaped
      obtain ⟨lexed, read⟩ := ih₁ rfl trivial (Field.all_node.2 (.inr isBare)) lexed
      have lexed := ((moved lexed).next (stays ▸ Token.noCall_of_isOpIn isOp (by decide))).skips
        skips
      have isItem : value.Simple := .inl (below value (by simp [children, fields, Field.toList]))
      obtain ⟨lexed, more⟩ := ih₂ rfl trivial (Field.all_node.2 isItem) lexed
      have second : value.Read 2 := Field.all_node.1 more
      refine ⟨lexed, Field.all_node.2 (.of_children ?_ (by simp [Node.bound, second.rank]) ?_ rfl
        (List.contains_iff_mem.2 (Token.text_of_isOpIn isOp)))⟩
      · cases takesList <;> simp [Rule.rank, Node.rank]
      · simpa [children, fields, Field.toList]
          using ⟨(Field.all_node.1 read).target same bound, second.any⟩
  | values items _ ih =>
      have each := simple_of_ofValues (Field.all_node.1 simple)
      obtain ⟨lexed, read⟩ := ih rfl trivial each lexed
      exact ⟨lexed, Field.all_node.2 (.ofValues items.ne_nil (Field.all_node.1 simple) read)⟩
  | listedSplat =>
      cases ((Field.all_node.1 simple).isPlain rfl).1
  | listedPlain _ _ _ ih => exact ih rfl trivial simple lexed
  | _ => cases family

theorem read_junctions (family : rule.family = .junctions) (carries : rule.CarriesRead) :
    s'.Lexed ∧ field.All (Node.Read rule.rank) := by
  cases parts with
  | expression _ reads _ ih₁ _ ih₂ =>
      obtain ⟨lexed, read⟩ := ih₁ rfl trivial (Field.all_node.2 (reads.keepsSimple simple)) lexed
      exact ih₂ rfl ((Field.all_node.1 read).weaken (by decide)) simple lexed
  | joinedDone => exact ⟨lexed, Field.all_node.2 carries⟩
  | joinedMore isWord skips _ reads _ ih₁ _ ih₂ =>
      obtain ⟨lexed, read⟩ := ih₁ rfl trivial
        (Field.all_node.2 (reads.keepsSimple simple).operands.2)
        ((lexed.next (Token.noCall_of_either isWord (by decide))).skips skips)
      refine ih₂ rfl (.operation ?_ carries (Field.all_node.1 read) ?_) simple lexed
      all_goals
        rcases Bool.or_eq_true_iff.1 isWord with isWord | isWord <;>
          rw [Token.text_of_isWord isWord] <;> decide
  | not isWord _ _ ih =>
      obtain ⟨lexed, read⟩ := ih rfl trivial
        (Field.all_node.2 ((Field.all_node.1 simple).inner rfl rfl))
        (lexed.next (Token.noCall_of_isWord isWord (by decide)))
      exact ⟨lexed, Field.all_node.2 (.unary (by decide) (Field.all_node.1 read) rfl)⟩
  | notNegated _ _ _ ih =>
      obtain ⟨lexed, read⟩ := ih rfl trivial simple lexed
      exact ⟨lexed, fun node mem => (read node mem).weaken (by decide)⟩
  | rangeBetween _ isWord _ _ ih₁ _ ih₂ =>
      obtain ⟨leftSimple, rightSimple⟩ := (Field.all_node.1 simple).operands
      obtain ⟨lexed, first⟩ := ih₁ rfl (List.suffix_refl _) (Field.all_node.2 leftSimple) lexed
      obtain ⟨lexed, second⟩ := ih₂ rfl (List.suffix_refl _) (Field.all_node.2 rightSimple)
        (lexed.next (Token.noCall_of_either isWord (by decide)))
      refine ⟨lexed, Field.all_node.2
        (.operation ?_ (Field.all_node.1 first) (Field.all_node.1 second) ?_)⟩
      all_goals
        rcases Bool.or_eq_true_iff.1 isWord with isWord | isWord <;>
          rw [Token.text_of_isWord isWord] <;> decide
  | notRange _ _ _ ih =>
      obtain ⟨lexed, read⟩ := ih rfl (List.suffix_refl _) simple lexed
      exact ⟨lexed, fun node mem => (read node mem).weaken (by decide)⟩
  | _ => cases family

theorem read_operations (family : rule.family = .operations) (carries : rule.CarriesRead) :
    s'.Lexed ∧ field.All (Node.Read rule.rank) := by
  cases parts with
  | minus isWord _ _ ih =>
      obtain ⟨lexed, read⟩ := ih rfl trivial
        (Field.all_node.2 ((Field.all_node.1 simple).inner rfl rfl))
        (lexed.next (Token.noCall_of_isWord isWord (by decide)))
      exact ⟨lexed, Field.all_node.2 (.unary (by decide) (Field.all_node.1 read) rfl)⟩
  | tightest _ _ ih =>
      obtain ⟨lexed, read⟩ := ih rfl trivial simple lexed
      exact ⟨lexed, fun node mem => (read node mem).weaken (by decide)⟩
  | @level level tighter _ _ _ _ _ _ reads _ ih₁ _ ih₂ =>
      have others := (List.suffix_cons level tighter).trans carries
      obtain ⟨lexed, first⟩ := ih₁ rfl others (Field.all_node.2 (reads.keepsSimple simple)) lexed
      obtain ⟨lexed, read⟩ := ih₂ rfl
        ⟨carries, (Field.all_node.1 first).weaken (by simp only [Rule.rank]; split <;> omega)⟩
        simple lexed
      refine ⟨lexed, fun node mem => (read node mem).weaken ?_⟩
      simp only [Rule.rank, List.length_cons]
      omega
  | chainDone =>
      exact ⟨lexed, Field.all_node.2 (carries.2.weaken (by simp only [Rule.rank]; split <;> omega))⟩
  | chainMore chains isOp skips _ reads _ ih₁ _ ih₂ =>
      obtain ⟨known, held⟩ := carries
      have others := (List.suffix_cons _ _).trans known
      have ranks := rank_of_level known (Token.text_of_isOpIn isOp)
      have isBinary := List.contains_iff_mem.1
        (binaryOperators_of_level (known.subset List.mem_cons_self) isOp)
      obtain ⟨lexed, read⟩ := ih₁ rfl others (Field.all_node.2
        (reads.keepsSimple simple).operands.2)
        ((lexed.next (Token.noCall_of_binary isBinary)).skips skips)
      refine ih₂ rfl ⟨known, .operation isBinary held (Field.all_node.1 read)
        ⟨?_, le_of_eq ranks.2.1, le_of_eq ranks.2.2⟩⟩ simple lexed
      simp [ranks.1, chains]
  | chainOnce chains isOp skips _ _ ih =>
      obtain ⟨known, held⟩ := carries
      have others := (List.suffix_cons _ _).trans known
      have ranks := rank_of_level known (Token.text_of_isOpIn isOp)
      have isBinary := List.contains_iff_mem.1
        (binaryOperators_of_level (known.subset List.mem_cons_self) isOp)
      obtain ⟨lexed, read⟩ := ih rfl others (Field.all_node.2 (Field.all_node.1 simple).operands.2)
        ((lexed.next (Token.noCall_of_binary isBinary)).skips skips)
      exact ⟨lexed, Field.all_node.2 (.operation isBinary held (Field.all_node.1 read)
        ⟨le_of_eq ranks.1.symm, le_of_eq ranks.2.1, le_of_eq ranks.2.2⟩)⟩
  | notMinus _ _ _ ih =>
      obtain ⟨lexed, read⟩ := ih rfl trivial simple lexed
      exact ⟨lexed, fun node mem => (read node mem).weaken (by decide)⟩
  | power _ isWord skips _ _ ih₁ _ ih₂ =>
      obtain ⟨leftSimple, rightSimple⟩ := (Field.all_node.1 simple).operands
      obtain ⟨lexed, first⟩ := ih₁ rfl trivial (Field.all_node.2 leftSimple) lexed
      obtain ⟨lexed, second⟩ := ih₂ rfl trivial (Field.all_node.2 rightSimple)
        ((lexed.next (Token.noCall_of_isWord isWord (by decide))).skips skips)
      exact ⟨lexed, Field.all_node.2 (.operation (by decide) (Field.all_node.1 first)
        (Field.all_node.1 second) (by decide))⟩
  | notPower _ _ _ ih =>
      obtain ⟨lexed, read⟩ := ih rfl trivial simple lexed
      exact ⟨lexed, fun node mem => (read node mem).weaken (by decide)⟩
  | unary isWord _ _ ih =>
      have known := Token.text_of_unary isWord
      obtain ⟨lexed, read⟩ := ih rfl trivial
        (Field.all_node.2 ((Field.all_node.1 simple).inner rfl rfl))
        (lexed.next known.2.2)
      exact ⟨lexed, Field.all_node.2 (.unary known.1 (Field.all_node.1 read) known.2.1)⟩
  | notUnary _ _ _ ih =>
      obtain ⟨lexed, read⟩ := ih rfl trivial simple lexed
      exact ⟨lexed, fun node mem => (read node mem).weaken (by decide)⟩
  | _ => cases family

theorem read_messages (family : rule.family = .messages) (isPlain : rule.isPlain = true)
    (carries : rule.CarriesRead) : s'.Lexed ∧ field.All (Node.Read rule.rank) := by
  cases parts with
  | suffixesDone => exact ⟨lexed, Field.all_node.2 carries⟩
  | operand _ reads _ ih₁ _ ih₂ =>
      obtain ⟨lexed, read⟩ := ih₁ rfl trivial (Field.all_node.2 (reads.keepsSimple simple)) lexed
      exact ih₂ rfl (show Read 19 _ from Field.all_node.1 read) simple lexed
  | suffixesCall _ call reads =>
      exact absurd (Field.all_node.2 (reads.keepsSimple simple)) call.keepsSimple
  | suffixesIndex _ _ reads => cases ((reads.keepsSimple simple).isPlain rfl).1
  | _ => first | (cases family; done) | cases isPlain

theorem read_operands (family : rule.family = .operands) :
    s'.Lexed ∧ field.All (Node.Read rule.rank) := by
  cases parts with
  | lambda =>
      cases ((Field.all_node.1 simple).isPlain rfl).1
  | fcall _ _ _ reads | command _ _ _ _ _ reads | fcallBlock _ _ _ _ _ reads =>
      cases ((reads.keepsSimple simple).isPlain rfl).1
  | leaf found =>
      have kind := Token.isOperand_of_leaf? found
      simp only [List.mem_cons, List.not_mem_nil, or_false, not_or] at kind
      exact ⟨lexed.next (Token.noCall_of_kind kind.1),
        Field.all_node.2 (.leaf found (lexed.spelled (by simp [kind])))⟩
  | constant kind =>
      have spelled : (Sign.mk _ _).Spelled := lexed.spelled (by simp [kind])
      rw [kind] at spelled
      exact ⟨lexed.next (Token.noCall_of_kind (by simp [kind])),
        Field.all_node.2 (.varRef (.name rfl spelled (by intro isOp; cases isOp)))⟩
  | localVar kind =>
      exact ⟨lexed.next (Token.noCall_of_kind (by simp [kind])),
        Field.all_node.2 (.varRef (.ident kind (lexed.spelled (by simp [kind]))))⟩
  | vcall kind =>
      exact ⟨lexed.next (Token.noCall_of_kind (by simp [kind])),
        Field.all_node.2 (.vcall (.ident kind (lexed.spelled (by simp [kind]))))⟩
  | paren isOp skips _ skipsBack isWord _ ih =>
      have inner := (Field.all_node.1 simple).inner rfl rfl
      obtain ⟨lexed, read⟩ := ih rfl trivial (Field.all_node.2 inner)
        ((lexed.next (Token.noCall_of_isOp isOp (by decide))).skips skips)
      refine ⟨(lexed.skips skipsBack).next (Token.noCall_of_isWord isWord (by decide)),
        Field.all_node.2 (.of_children (le_refl _) rfl ?_ rfl rfl)⟩
      simpa [children, fields, Field.toList] using (Field.all_node.1 read).any
  | array isOp skips _ isWord _ ih =>
      obtain ⟨-, below⟩ := (Field.all_node.1 simple).isPlain rfl
      simp only [children, fields, List.flatMap_cons, List.flatMap_nil, Field.toList,
        List.append_nil] at below
      obtain ⟨lexed, read⟩ := ih rfl trivial (fun node mem => .inl (below node mem))
        (((lexed.next (Token.noCall_of_isOp isOp (by decide))).atDepth 0).skips skips)
      refine ⟨(lexed.next (Token.noCall_of_isWord isWord (by decide))).atDepth _,
        Field.all_node.2 (.of_children (le_refl _) ?_ ?_ rfl rfl)⟩
      · simp only [Node.bound, List.all_eq_true, decide_eq_true_eq]
        exact fun node mem => (read node mem).rank
      · simpa [children, fields, Field.toList] using fun node mem => (read node mem).any
  | hash isOp skips _ isWord _ ih =>
      obtain ⟨-, below⟩ := (Field.all_node.1 simple).isPlain rfl
      simp only [children, fields, List.flatMap_cons, List.flatMap_nil, Field.toList,
        List.append_nil] at below
      obtain ⟨lexed, read⟩ := ih rfl trivial (fun node mem => .inl (below node mem))
        (((lexed.next (Token.noCall_of_isOp isOp (by decide))).atDepth 0).skips skips)
      refine ⟨(lexed.next (Token.noCall_of_isWord isWord (by decide))).atDepth _,
        Field.all_node.2 (.of_children (le_refl _) rfl ?_ rfl rfl)⟩
      simpa [children, fields, Field.toList] using fun node mem => (read node mem).any
  | _ => cases family

theorem read_lists (family : rule.family = .lists) (isPlain : rule.isPlain = true) :
    s'.Lexed ∧ field.All (Node.Read rule.rank) := by
  cases parts with
  | entriesDone => exact ⟨lexed, List.forall_mem_nil _⟩
  | elementSplat | entrySplat =>
      cases ((Field.all_node.1 simple).isPlain rfl).1
  | elementPlain _ _ _ ih => exact ih rfl trivial simple lexed
  | itemsLast _ _ _ ih =>
      obtain ⟨isItem, itemCarries, -⟩ := Rule.isPlain_item isPlain
      exact ih isItem itemCarries simple lexed
  | itemsClosed _ _ _ closes =>
      obtain ⟨-, -, rfl⟩ := Rule.isPlain_item isPlain
      cases closes
  | itemsMore _ isWord skips _ _ _ ih₁ _ ih₂ =>
      obtain ⟨isItem, itemCarries, -⟩ := Rule.isPlain_item isPlain
      obtain ⟨first, others⟩ := List.forall_mem_cons.1 simple
      obtain ⟨lexed, read⟩ := ih₁ isItem itemCarries (Field.all_node.2 first) lexed
      obtain ⟨lexed, more⟩ := ih₂ isPlain trivial others
        ((lexed.next (Token.noCall_of_isWord isWord (by decide))).skips skips)
      exact ⟨lexed, List.forall_mem_cons.2 ⟨Field.all_node.1 read, more⟩⟩
  | entriesLast _ _ skips _ _ ih =>
      obtain ⟨isItem, itemCarries⟩ := Rule.isPlain_entry isPlain
      obtain ⟨lexed, read⟩ := ih isItem itemCarries simple lexed
      exact ⟨lexed.skips skips, read⟩
  | entriesMore _ _ skips isWord skipsComma _ _ ih₁ _ ih₂ =>
      obtain ⟨isItem, itemCarries⟩ := Rule.isPlain_entry isPlain
      obtain ⟨first, others⟩ := List.forall_mem_cons.1 simple
      obtain ⟨lexed, read⟩ := ih₁ isItem itemCarries (Field.all_node.2 first) lexed
      obtain ⟨lexed, more⟩ := ih₂ isPlain trivial others
        (((lexed.skips skips).next (Token.noCall_of_isWord isWord (by decide))).skips skipsComma)
      exact ⟨lexed, List.forall_mem_cons.2 ⟨Field.all_node.1 read, more⟩⟩
  | @entryLabel _ _ _ value kind skips _ _ ih =>
      have spelled : (Sign.mk _ _).Spelled := lexed.spelled (by simp [kind])
      rw [kind] at spelled
      obtain ⟨-, below⟩ := (Field.all_node.1 simple).isPlain rfl
      have isItem := below value (by simp [children, fields, Field.toList])
      obtain ⟨lexed, read⟩ := ih rfl trivial (Field.all_node.2 (.inl isItem))
        ((lexed.next (Token.noCall_of_kind (by simp [kind]))).skips skips)
      have key (pos : Pos) := @Read.name .label pos _ rfl spelled (by intro isOp; cases isOp)
      exact ⟨lexed, Field.all_node.2 (.assoc ((key _).weaken (by decide)) (Field.all_node.1 read))⟩
  | @entryArrow _ _ _ _ _ key value _ _ _ skips isWord skipsArrow _ _ ih₁ _ ih₂ =>
      obtain ⟨-, below⟩ := (Field.all_node.1 simple).isPlain rfl
      have isKey := below key (by simp [children, fields, Field.toList])
      have isValue := below value (by simp [children, fields, Field.toList])
      obtain ⟨lexed, first⟩ := ih₁ rfl trivial (Field.all_node.2 (.inl isKey)) lexed
      obtain ⟨lexed, second⟩ := ih₂ rfl trivial (Field.all_node.2 (.inl isValue))
        (((lexed.skips skips).next (Token.noCall_of_isWord isWord (by decide))).skips skipsArrow)
      exact ⟨lexed, Field.all_node.2 (.assoc (Field.all_node.1 first) (Field.all_node.1 second))⟩
  | _ => cases family

end Families

/-- What a rule reads from the tokens of a source binds, as far as it is simple. -/
theorem read (reads : Derives fits rule s field s') (isPlain : rule.isPlain = true)
    (carries : rule.CarriesRead) (simple : field.All Simple) (lexed : s.Lexed) :
    s'.Lexed ∧ field.All (Node.Read rule.rank) := by
  induction reads using of_parts with
  | @step rule _ _ _ _ parts =>
      cases family : rule.family with
      | statements => exact read_statements parts simple lexed family isPlain
      | assignments => exact read_assignments parts simple lexed family
      | junctions => exact read_junctions parts simple lexed family carries
      | operations => exact read_operations parts simple lexed family carries
      | messages => exact read_messages parts simple lexed family isPlain carries
      | operands => exact read_operands parts simple lexed family
      | lists => exact read_lists parts simple lexed family isPlain
      | blocks | clauses | parameters | arguments =>
          cases rule <;> first | (cases isPlain; done) | cases family

end Derives

/-- The statements of a source that are plain bind as their operators do. -/
theorem Node.read_of_source {source : String} {pos : Pos} {stmts : List Node}
    (parsed : Node.ofSource source = .ok (.program pos stmts))
    (allPlain : ∀ stmt ∈ stmts, stmt.isPlain = true) : ∀ stmt ∈ stmts, stmt.Read 1 := by
  obtain ⟨tokens, lexed, parsed⟩ := tokens_of_source parsed
  obtain ⟨s, reads⟩ := Reads.of_parse parsed
  cases reads with
  | program body eof =>
      have lexed : (ParseState.start tokens).Lexed :=
        ⟨Tokens.close_of_source lexed, none, rfl, Tokens.lexedAfter_of_source lexed⟩
      exact (body.read rfl trivial (fun stmt mem => .inl (allPlain stmt mem)) lexed).2

end RubyFormat
