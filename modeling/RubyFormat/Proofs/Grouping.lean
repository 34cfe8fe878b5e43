import Mathlib.Data.List.Infix
import Mathlib.Order.Basic
import RubyFormat.Proofs.Forms

/-!
# How operators group

Every expression has a level, from assignments up to operands.  An operator takes operands of a
level that follows from its own and from the side on which they stand; arguments, elements, splats
and the defaults of parameters ask for a level, too.  Every node of the tree of a source has what it
asks for, so whatever binds looser stands in parentheses.
-/

namespace RubyFormat

/-! ## Levels -/

/-- The levels of expressions, from the loosest to the tightest. -/
inductive Level where
  | assignment
  | joining
  | negation
  | range
  | disjunction
  | conjunction
  | equality
  | comparison
  | bitOr
  | bitAnd
  | shift
  | sum
  | product
  | minus
  | power
  | signed
  | operand
  deriving DecidableEq, Repr

namespace Level

/-- The number of levels that are looser than a level. -/
def height (level : Level) : Nat :=
  level.ctorIdx

theorem height_injective : Function.Injective height := by
  intro first second same
  cases first <;> cases second <;> first | rfl | cases same

instance : LinearOrder Level :=
  LinearOrder.lift' height height_injective

theorem assignment_le (level : Level) : assignment ≤ level :=
  Nat.zero_le level.height

/-- The levels with binary operators. -/
def binary : List (Level × List String) := [
  (joining, ["and", "or"]),
  (range, ["..", "..."]),
  (disjunction, ["||"]),
  (conjunction, ["&&"]),
  (equality, ["==", "!=", "===", "=~", "!~", "<=>"]),
  (comparison, ["<", "<=", ">", ">="]),
  (bitOr, ["|", "^"]),
  (bitAnd, ["&"]),
  (shift, ["<<", ">>"]),
  (sum, ["+", "-"]),
  (product, ["*", "/", "%"]),
  (power, ["**"])]

/-- The level of a binary operator. -/
def ofBinary (operator : String) : Option Level :=
  (binary.find? (·.2.contains operator)).map Prod.fst

/-- The level of a unary operator. -/
def ofUnary : String → Option Level
  | "not" => some negation
  | "-" => some minus
  | "!" | "~" | "+" => some signed
  | _ => none

/-- Whether a binary operator of a level takes an operand of another on its left.  Ranges, equality
operators and powers do not chain to the left. -/
def takesLeft : Level → Level → Bool
  | range, left => range < left
  | equality, left => equality < left
  | power, left => signed ≤ left
  | own, left => own ≤ left

/-- Whether a binary operator of a level takes an operand of another on its right.  The exponent of
a power can be a power or have a minus. -/
def takesRight : Level → Level → Bool
  | power, right => minus ≤ right
  | own, right => own < right

theorem takesLeft_mono {own lower left : Level} (le : lower ≤ left)
    (takes : own.takesLeft lower = true) : own.takesLeft left = true := by
  cases own <;> simp only [takesLeft, decide_eq_true_eq] at takes ⊢ <;>
    first | exact takes.trans le | exact takes.trans_le le

theorem takesRight_mono {own lower right : Level} (le : lower ≤ right)
    (takes : own.takesRight lower = true) : own.takesRight right = true := by
  cases own <;> simp only [takesRight, decide_eq_true_eq] at takes ⊢ <;>
    first | exact takes.trans le | exact takes.trans_le le

theorem le_of_takesLeft {own left : Level} (takes : own.takesLeft left = true) : own ≤ left := by
  cases own <;> simp only [takesLeft, decide_eq_true_eq] at takes <;>
    first | exact takes | exact takes.le | exact le_trans (by decide) takes

/-- Only the exponent of a power can be looser than its operator. -/
theorem le_of_takesRight {own right : Level} (takes : own.takesRight right = true) :
    own ≤ right ∨ own = power ∧ right = minus := by
  cases own with
  | power =>
      simp only [takesRight, decide_eq_true_eq] at takes
      rcases takes.eq_or_lt with same | looser
      · exact .inr ⟨rfl, same.symm⟩
      · exact .inl (Nat.succ_le_of_lt looser)
  | _ => exact .inl (of_decide_eq_true takes).le

/-- The loosest level of what the given levels of binary operators make of operands. -/
def ofOperations (levels : List OperatorLevel) : Level :=
  match levels.head? with
  | some level => (level.operators.head?.bind ofBinary).getD assignment
  | none => minus

/-- The operators of a level of the parser are of one level, and take operands of the next. -/
theorem ofBinary_of_mem {level : OperatorLevel} {tighter : List OperatorLevel}
    (known : level :: tighter <:+ OperatorLevel.all) {operator : String}
    (mem : operator ∈ level.operators) :
    ofBinary operator = some (ofOperations (level :: tighter)) ∧
      (ofOperations (level :: tighter)).takesLeft
        (ofOperations (if level.chains then level :: tighter else tighter)) = true ∧
      (ofOperations (level :: tighter)).takesRight (ofOperations tighter) = true := by
  have table : ∀ levels ∈ OperatorLevel.all.tails, ∀ level ∈ levels.head?,
      ∀ operator ∈ level.operators, ofBinary operator = some (ofOperations levels) ∧
        (ofOperations levels).takesLeft
          (ofOperations (if level.chains then levels else levels.tail)) = true ∧
        (ofOperations levels).takesRight (ofOperations levels.tail) = true := by decide
  exact table _ (List.mem_tails _ _ |>.2 known) level rfl operator mem

theorem ofOperations_le {level : OperatorLevel} {tighter : List OperatorLevel}
    (known : level :: tighter <:+ OperatorLevel.all) :
    ofOperations (level :: tighter) ≤ ofOperations tighter := by
  have table : ∀ levels ∈ OperatorLevel.all.tails, levels ≠ [] →
      ofOperations levels ≤ ofOperations levels.tail := by decide
  exact table _ (List.mem_tails _ _ |>.2 known) nofun

end Level

namespace Node

/-- The level of an expression.  What stands only in a list of arguments or of entries is as loose
as an argument can be, and what stands only where a statement or its value does is as loose as an
assignment. -/
def level : Node → Level
  | .binary _ _ operator _ => (Level.ofBinary operator).getD .assignment
  | .unary _ operator _ => (Level.ofUnary operator).getD .assignment
  | .assign _ _ _ | .opAssign _ _ _ _ | .valueList _ _ | .splatValueList _ _
  | .commented _ _ _ => .assignment
  | .splat _ _ | .doubleSplat _ _ | .blockArg _ _ | .assoc _ _ _ | .bareAssocHash _ _ => .negation
  | _ => .operand

/-- Whether the expressions right below a node have the levels that it asks for. -/
def grouped (node : Node) : Bool :=
  match node with
  | .binary _ left operator right =>
      (Level.ofBinary operator).any fun own =>
        own.takesLeft left.level && own.takesRight right.level
  | .unary _ operator operand => (Level.ofUnary operator).any (· ≤ operand.level)
  | .args _ _ | .array _ _ | .hash _ _ | .bareAssocHash _ _ | .assoc _ _ _ =>
      node.children.all (.negation ≤ ·.level)
  | .splat _ _ | .doubleSplat _ _ | .blockArg _ _ => node.children.all (.range ≤ ·.level)
  | .optionalParam _ _ _ | .keywordParam _ _ _ => node.children.all (.bitAnd ≤ ·.level)
  | .assign _ target _ | .opAssign _ target _ _ => .operand ≤ target.level
  | .rescue _ exceptions target _ _ =>
      exceptions.all (.range ≤ ·.level) && target.all (.operand ≤ ·.level)
  -- parentheses, values of assignments and statements can be of any level
  | .paren _ _ | .valueList _ _ | .splatValueList _ _ | .commented _ _ _ | .program _ _
  | .lambda _ _ _ | .braceBlock _ _ _ | .bodyStmt _ _ _ _ _ => true
  | _ => node.children.all (.operand ≤ ·.level)

/-- The expressions that a node puts together without a list, a block or a body around them. -/
def operands : Node → List Node
  | .binary _ left _ right => [left, right]
  | .unary _ _ operand | .paren _ operand => [operand]
  | .call _ receiver _ _ _ _ | .field _ receiver _ _ | .aref _ receiver _
  | .arefField _ receiver _ | .constPathRef _ receiver _ | .methodAddBlock _ receiver _ =>
      [receiver]
  | .assign _ target value | .opAssign _ target _ value => [target, value]
  | _ => []

/-- An operand is looser than the node above it only in parentheses or with a minus in an
exponent. -/
theorem paren_of_level_lt {node operand : Node} (grouped : node.grouped = true)
    (mem : operand ∈ node.operands) (looser : operand.level < node.level) :
    node.isOfKind .paren = true ∨ node.level = .power ∧ operand.level = .minus := by
  cases node with
  | binary pos left operator right =>
      simp only [Node.grouped, Option.any_eq_true, Bool.and_eq_true] at grouped
      obtain ⟨own, known, takesLeft, takesRight⟩ := grouped
      have here : (Node.binary pos left operator right).level = own := by simp [level, known]
      rw [here] at looser ⊢
      simp only [operands, List.mem_cons, List.not_mem_nil, or_false] at mem
      rcases mem with rfl | rfl
      · exact absurd looser (not_lt.2 (Level.le_of_takesLeft takesLeft))
      · rcases Level.le_of_takesRight takesRight with le | exponent
        · exact absurd looser (not_lt.2 le)
        · exact .inr exponent
  | unary pos operator inner =>
      simp only [Node.grouped, Option.any_eq_true, decide_eq_true_eq] at grouped
      obtain ⟨own, known, le⟩ := grouped
      obtain rfl := List.mem_singleton.1 mem
      rw [level, known] at looser
      exact absurd looser (not_lt.2 le)
  | paren => exact .inl rfl
  | assign | opAssign => exact absurd looser (not_lt.2 (Level.assignment_le _))
  | call | field | aref | arefField | constPathRef | methodAddBlock =>
      have inside := of_decide_eq_true (List.all_eq_true.1 grouped operand (by
        simp_all [operands, children, fields, Field.toList]))
      exact absurd looser (not_lt.2 inside)
  | _ => cases mem

/-- Whether a node is an operator with its operands. -/
def hasOperator : Node → Bool
  | .binary _ _ _ _ | .unary _ _ _ => true
  | _ => false

theorem level_lt_of_hasOperator {node : Node} (hasOperator : node.hasOperator = true) :
    node.level < .operand := by
  cases node with
  | binary pos left operator right =>
      have table : ∀ row ∈ Level.binary, row.1 < .operand := by decide
      rw [level, Level.ofBinary]
      cases found : Level.binary.find? (·.2.contains operator) with
      | none => decide
      | some row => exact table row (List.mem_of_find?_eq_some found)
  | unary pos operator operand =>
      simp only [level, Level.ofUnary]
      split <;> decide
  | _ => cases hasOperator

/-! ## Trees of a level -/

/-- A tree at least as tight as a level, whose nodes all have below them what they ask for. -/
structure Levelled (lowest : Level) (node : Node) : Prop where
  lowest_le : lowest ≤ node.level
  grouped : node.everywhere grouped = true

namespace Levelled

variable {lowest : Level} {node : Node}

theorem weaken {lower : Level} (tree : node.Levelled lowest) (le : lower ≤ lowest) :
    node.Levelled lower :=
  ⟨le.trans tree.lowest_le, tree.grouped⟩

theorem any (tree : node.Levelled lowest) : node.Levelled .assignment :=
  tree.weaken (Level.assignment_le lowest)

theorem of (lowest_le : lowest ≤ node.level) (grouped : node.grouped = true)
    (below : ∀ child ∈ node.children, child.Levelled .assignment) : node.Levelled lowest :=
  ⟨lowest_le, everywhere_iff.2 ⟨grouped, fun child mem => (below child mem).grouped⟩⟩

/-- The trees of a field, without a bound on their level. -/
theorem anyAll {field : Field Node} (each : field.All (Levelled lowest)) :
    field.All (Levelled .assignment) :=
  fun node mem => (each node mem).any

/-- A node that asks for no level. -/
theorem of_loose (lowest_le : lowest ≤ node.level) (grouped : node.grouped = true)
    (each : ∀ field ∈ node.fields, field.2.All (Levelled .assignment)) : node.Levelled lowest :=
  of lowest_le grouped (forall_children each)

/-- A node that asks for one level of all nodes right below. -/
theorem of_children {asked : Level} (lowest_le : lowest ≤ node.level)
    (asks : node.grouped = node.children.all (asked ≤ ·.level))
    (below : ∀ child ∈ node.children, child.Levelled asked) : node.Levelled lowest := by
  refine of lowest_le ?_ fun child mem => (below child mem).any
  rw [asks, List.all_eq_true]
  exact fun child mem => decide_eq_true (below child mem).lowest_le

theorem of_fields {asked : Level} (lowest_le : lowest ≤ node.level)
    (asks : node.grouped = node.children.all (asked ≤ ·.level))
    (each : ∀ field ∈ node.fields, field.2.All (Levelled asked)) : node.Levelled lowest :=
  of_children lowest_le asks (forall_children each)

theorem below {asked : Level} (tree : node.Levelled lowest)
    (asks : node.grouped = node.children.all (asked ≤ ·.level)) :
    ∀ child ∈ node.children, child.Levelled asked := by
  intro child mem
  obtain ⟨here, inside⟩ := everywhere_iff.1 tree.grouped
  rw [asks, List.all_eq_true] at here
  exact ⟨of_decide_eq_true (here child mem), inside child mem⟩

theorem binary {own lowestLeft lowestRight : Level} {pos : Pos} {left right : Node}
    {operator : String} (known : Level.ofBinary operator = some own)
    (takesLeft : own.takesLeft lowestLeft = true) (takesRight : own.takesRight lowestRight = true)
    (first : left.Levelled lowestLeft) (second : right.Levelled lowestRight) :
    (Node.binary pos left operator right).Levelled own := by
  refine of ?_ ?_ ?_
  · simp [level, known]
  · simp [Node.grouped, known, Level.takesLeft_mono first.lowest_le takesLeft,
      Level.takesRight_mono second.lowest_le takesRight]
  · simpa [children, fields, Field.toList] using ⟨first.any, second.any⟩

theorem unary {own : Level} {pos : Pos} {operand : Node} {operator : String}
    (known : Level.ofUnary operator = some own) (inner : operand.Levelled own) :
    (Node.unary pos operator operand).Levelled own := by
  refine of ?_ ?_ ?_
  · simp [level, known]
  · simpa [Node.grouped, known] using inner.lowest_le
  · simpa [children, fields, Field.toList] using inner.any

theorem rescue {pos : Pos} {exceptions stmts : List Node} {holder next : Option Node}
    (first : (Field.list exceptions).All (Levelled .range))
    (second : (Field.optional holder).All (Levelled .operand))
    (body : (Field.list stmts).All (Levelled .assignment))
    (others : (Field.optional next).All (Levelled .operand)) :
    (Node.rescue pos exceptions holder stmts next).Levelled .operand := by
  refine of_loose le_rfl (Bool.and_eq_true_iff.2 ⟨List.all_eq_true.2 ?_, ?_⟩) ?_
  · exact fun node mem => decide_eq_true (first node mem).lowest_le
  · cases holder with
    | none => rfl
    | some target => exact decide_eq_true (second target List.mem_cons_self).lowest_le
  · simp only [fields, List.forall_mem_cons]
    exact ⟨anyAll first, anyAll second, body, anyAll others, List.forall_mem_nil _⟩

theorem of_leaf? {token : Token} (found : token.leaf? = some node) : node.Levelled .operand := by
  obtain ⟨kind, rfl⟩ | ⟨kind, rfl⟩ | ⟨kind, -, rfl⟩ := token.leaf?_cases found
  all_goals exact ⟨le_rfl, rfl⟩

theorem name {kind : NameKind} {pos : Pos} {text : String} :
    (Node.name kind pos text).Levelled .operand :=
  ⟨le_rfl, rfl⟩

theorem of_message? {token : Token} (found : token.message? = some node) :
    node.Levelled .operand := by
  obtain ⟨kind, rfl⟩ := token.message?_eq_name found
  exact name

theorem of_callee? {token : Token} (found : token.callee? = some node) :
    node.Levelled .operand := by
  obtain ⟨kind, rfl⟩ := token.callee?_eq_name found
  exact name

theorem target {expr made : Node} {s s' : ParseState}
    (ran : (Parse.target expr).run s = .ok (made, s')) (tree : expr.Levelled lowest) :
    made.Levelled .operand := by
  have inside (asks : expr.grouped = expr.children.all (.operand ≤ ·.level)) (child : Node)
      (mem : child ∈ made.children) : child.Levelled .operand :=
    tree.below asks child (mem_children_of_target ran mem)
  obtain ⟨pos, kind, namePos, text, rfl, rfl⟩ | ⟨pos, inner, -, rfl, rfl⟩ |
    ⟨pos, receiver, operator, namePos, text, comments, rfl, rfl⟩ |
    ⟨pos, receiver, args, rfl, rfl⟩ | ⟨pos, parent, name, rfl, rfl⟩ := target_cases ran
  all_goals exact of_children le_rfl rfl (inside rfl)

theorem withComment {pos : Pos} {text : String} (tree : node.Levelled .assignment) :
    (node.withComment (.comment pos text)).Levelled .assignment := by
  have remark : (Node.comment pos text).Levelled .operand := ⟨le_rfl, rfl⟩
  cases node with
  | call callPos receiver operator message arguments comments =>
      have parts := tree.below rfl
      refine of_children (Level.assignment_le _) rfl ?_
      simp only [Node.withComment, children, fields, Field.toList, List.flatMap_cons,
        List.flatMap_nil, List.mem_append, List.mem_singleton] at parts ⊢
      grind
  | _ =>
      refine of (Level.assignment_le _) rfl ?_
      simpa [Node.withComment, children, fields, Field.toList] using ⟨tree, remark.any⟩

theorem ofValues {pos : Pos} {values : List Node}
    (each : ∀ value ∈ values, value.Levelled .assignment) :
    (Node.ofValues pos values).Levelled .assignment := by
  unfold Node.ofValues
  split
  · exact of le_rfl rfl (by simpa [children, fields, Field.toList] using each)
  · split
    · exact each _ List.mem_cons_self
    · exact of le_rfl rfl (by simpa [children, fields, Field.toList] using each)

theorem gatherEntries {parts : List Node} (each : ∀ part ∈ parts, part.Levelled .negation) :
    ∀ part ∈ Node.gatherEntries parts, part.Levelled .negation := by
  refine forall_gatherEntries (fun entry _ first => ?_) (fun entry pos entries _ first hash => ?_)
    each
  · exact of_children le_rfl rfl (forall_children_one rfl first)
  · have inside := hash.below rfl
    refine of_children le_rfl rfl ?_
    simp only [children, fields, Field.toList, List.flatMap_cons, List.flatMap_nil,
      List.append_nil] at inside ⊢
    exact List.forall_mem_cons.2 ⟨first, inside⟩

end Levelled

end Node

/-- The loosest level of what a rule reads. -/
def Rule.lowest : Rule → Level
  | .stmts _ | .stmt | .assignment _ | .values | .listedValue | .clause _ _ | .lambdaBody =>
      .assignment
  | .expression | .joined _ => .joining
  | .negated | .argument | .element | .entry => .negation
  | .range | .exceptions => .range
  | .operations levels => .ofOperations levels
  | .chain level tighter _ => .ofOperations (level :: tighter)
  | .minus => .minus
  | .power => .power
  | .unary => .signed
  | .items item _ | .entries item _ => item.lowest
  | _ => .operand

/-- What has to hold of what a rule goes on with. -/
def Rule.CarriesLevelled : Rule → Prop
  | .joined left => left.Levelled .joining
  | .operations levels => levels <:+ OperatorLevel.all
  | .chain level tighter left =>
      level :: tighter <:+ OperatorLevel.all ∧
        left.Levelled (.ofOperations (if level.chains then level :: tighter else tighter))
  | .suffixes expr | .callSuffix expr | .block _ expr => expr.Levelled .operand
  | .paramList _ pos list => ∀ child ∈ (list.toNode pos).children, child.Levelled .operand
  | .items item _ | .entries item _ => item.CarriesLevelled
  | _ => True

open Node Node.Levelled RubyFormat.Field in
/-- What a rule reads has its level, and all nodes have below them what they ask for. -/
theorem Derives.levelled {fits : ParamList → Node → Prop} {rule : Rule} {s s' : ParseState}
    {field : Field Node} (reads : Derives fits rule s field s') (carries : rule.CarriesLevelled) :
    field.All (Levelled rule.lowest) := by
  induction reads with
  | stmtsDone | exceptionsNone | entriesDone => exact List.forall_mem_nil _
  | rescueNone | holderNone | clauseNone | blockVarNone | lambdaNone | indexEmpty =>
      exact List.forall_mem_nil _
  | stmtsBreak _ _ _ ih | stmt _ _ _ ih | lambdaBraces _ _ _ ih | lambdaDo _ _ _ ih
  | listedPlain _ _ ih | elementPlain _ _ ih | argumentPlain _ _ _ _ ih | exceptionsSome _ _ ih
  | clauseSome _ _ ih | lambdaBare _ _ _ ih | lambdaParen _ _ _ ih | tightest _ ih =>
      exact ih trivial
  | notNegated _ _ ih | notMinus _ _ ih | notPower _ _ ih | notUnary _ _ ih =>
      exact fun node mem => (ih trivial node mem).weaken (by decide)
  | notRange _ _ ih =>
      exact fun node mem => (ih List.suffix_rfl node mem).weaken (by decide)
  | unassigned _ _ _ ih => exact fun node mem => (ih trivial node mem).any
  | program _ _ ih =>
      exact all_node.2 (of_loose le_rfl rfl (List.forall_mem_singleton.2 (ih trivial)))
  | stmtsComment _ _ _ ih =>
      exact List.forall_mem_cons.2 ⟨⟨Level.assignment_le _, rfl⟩, ih trivial⟩
  | stmtsRemark _ _ _ _ _ _ ih₁ ih₂ =>
      exact List.forall_mem_cons.2 ⟨(all_node.1 (ih₁ trivial)).withComment, ih₂ trivial⟩
  | stmtsLast _ _ _ _ _ _ ih => exact ih trivial
  | stmtsMore _ _ _ _ _ _ _ _ ih₁ ih₂ =>
      exact List.forall_mem_cons.2 ⟨all_node.1 (ih₁ trivial), ih₂ trivial⟩
  | @assign takesList _ _ _ _ _ _ _ _ _ _ made _ _ ih₁ ih₂
  | @opAssign takesList _ _ _ _ _ _ _ _ _ _ _ made _ _ ih₁ ih₂ =>
      have left := (all_node.1 (ih₁ trivial)).target made
      have right := (all_node.1 (ih₂ (by cases takesList <;> trivial))).any
      exact all_node.2 (of le_rfl (decide_eq_true left.lowest_le)
        (forall_children_two rfl left.any right))
  | values _ ih => exact all_node.2 (Levelled.ofValues (ih trivial))
  | listedSplat _ _ ih =>
      exact all_node.2
        (of_fields (Level.assignment_le _) rfl (List.forall_mem_singleton.2 (ih trivial)))
  | elementSplat _ _ ih | argumentSplat _ _ ih | entrySplat _ _ ih | argumentDoubleSplat _ _ ih
  | argumentBlock _ _ _ ih | parenFull _ _ _ _ _ _ ih | array _ _ _ _ ih | hash _ _ _ _ ih =>
      exact all_node.2 (of_fields le_rfl rfl (List.forall_mem_singleton.2 (ih trivial)))
  | expression _ _ ih₁ ih₂ =>
      exact ih₂ ((all_node.1 (ih₁ trivial)).weaken (by decide))
  | joinedDone | suffixesDone | blockNone => exact all_node.2 carries
  | joinedMore isWord _ _ _ ih₁ ih₂ =>
      have right := all_node.1 (ih₁ trivial)
      refine ih₂ (.binary ?_ ?_ ?_ carries right)
      · rcases Bool.or_eq_true_iff.1 isWord with isWord | isWord <;>
          rw [Token.text_of_isWord isWord] <;> rfl
      · decide
      · decide
  | not _ _ ih | minus _ _ ih => exact all_node.2 (.unary rfl (all_node.1 (ih trivial)))
  | unary isWord _ ih =>
      refine all_node.2 (.unary ?_ (all_node.1 (ih trivial)))
      simp only [Bool.or_eq_true] at isWord
      rcases isWord with (isWord | isWord) | isWord <;> rw [Token.text_of_isWord isWord] <;> rfl
  | rangeBetween _ isWord _ ih₁ ih₂ =>
      have left := all_node.1 (ih₁ List.suffix_rfl)
      have right := all_node.1 (ih₂ List.suffix_rfl)
      refine all_node.2 (.binary ?_ ?_ ?_ left right)
      · rcases Bool.or_eq_true_iff.1 isWord with isWord | isWord <;>
          rw [Token.text_of_isWord isWord] <;> rfl
      · decide
      · decide
  | level _ _ ih₁ ih₂ =>
      -- The first operand of a level is of the next, which is more than a chain asks for.
      have left := all_node.1 (ih₁ ((List.suffix_cons _ _).trans carries))
      refine ih₂ ⟨carries, left.weaken ?_⟩
      split
      · exact Level.ofOperations_le carries
      · exact le_rfl
  | chainDone =>
      obtain ⟨known, left⟩ := carries
      refine all_node.2 (left.weaken ?_)
      split
      · exact le_rfl
      · exact Level.ofOperations_le known
  | chainMore chains isOp _ _ _ ih₁ ih₂ =>
      obtain ⟨known, left⟩ := carries
      obtain ⟨isLevel, takesLeft, takesRight⟩ :=
        Level.ofBinary_of_mem known (Token.text_of_isOpIn isOp)
      have right := all_node.1 (ih₁ ((List.suffix_cons _ _).trans known))
      refine ih₂ ⟨known, ?_⟩
      -- An operation is the left operand of the next operator of its level.
      rw [if_pos chains]
      exact .binary isLevel takesLeft takesRight left right
  | chainOnce chains isOp _ _ ih =>
      obtain ⟨known, left⟩ := carries
      obtain ⟨isLevel, takesLeft, takesRight⟩ :=
        Level.ofBinary_of_mem known (Token.text_of_isOpIn isOp)
      have right := all_node.1 (ih ((List.suffix_cons _ _).trans known))
      exact all_node.2 (.binary isLevel takesLeft takesRight left right)
  | power _ _ _ _ ih₁ ih₂ =>
      have left := all_node.1 (ih₁ trivial)
      have right := all_node.1 (ih₂ trivial)
      exact all_node.2 (.binary rfl (by decide) (by decide) left right)
  | operand _ _ ih₁ ih₂ => exact ih₂ (show Levelled .operand _ from all_node.1 (ih₁ trivial))
  | suffixesCall _ _ _ ih₁ ih₂ =>
      have call := all_node.1 (ih₁ carries)
      exact ih₂ call
  | suffixesIndex _ _ _ ih₁ ih₂ =>
      have args := all_optional.1 (ih₁ trivial)
      refine ih₂ (of_children le_rfl rfl ?_)
      simpa [children, fields, Field.toList, or_imp, forall_and] using ⟨carries, args⟩
  | callShorthand _ _ _ _ ih₁ ih₂ =>
      have args := all_node.1 (ih₁ trivial)
      exact ih₂ (of_children le_rfl rfl (forall_children_three rfl carries ⟨le_rfl, rfl⟩ args))
  | constPath _ found _ _ =>
      exact all_node.2 (of_children le_rfl rfl
        (forall_children_two rfl carries (of_message? found)))
  | callBare _ found _ _ _ ih =>
      exact ih (of_children le_rfl rfl (forall_children_two rfl carries (of_message? found)))
  | callArgs _ found _ _ _ ih₁ ih₂ =>
      have args := all_node.1 (ih₁ trivial)
      exact ih₂ (of_children le_rfl rfl
        (forall_children_three rfl carries (of_message? found) args))
  | leaf found => exact all_node.2 (of_leaf? found)
  | constant | localVar | vcall => exact all_node.2 ⟨le_rfl, rfl⟩
  | fcall found _ _ _ ih₁ ih₂ =>
      have args := all_node.1 (ih₁ trivial)
      exact ih₂ (of_children le_rfl rfl (forall_children_two rfl (of_callee? found) args))
  | command _ _ _ _ _ _ ih₁ ih₂ =>
      have args := all_node.1 (ih₁ trivial)
      exact ih₂ (of_children le_rfl rfl (forall_children_two rfl Levelled.name args))
  | fcallBlock _ _ _ _ _ _ ih => exact ih ⟨le_rfl, rfl⟩
  | paren _ _ _ _ _ ih =>
      exact all_node.2 (of_loose le_rfl rfl (List.forall_mem_singleton.2 (ih trivial)))
  | lambda _ _ _ ih₁ ih₂ | braceBlock _ _ _ _ _ ih₁ ih₂ =>
      exact all_node.2 (of_loose le_rfl rfl
        (List.forall_mem_cons.2 ⟨anyAll (ih₁ trivial), List.forall_mem_singleton.2 (ih₂ trivial)⟩))
  | blockBraces _ _ ih | blockDo _ _ ih =>
      have block := all_node.1 (ih trivial)
      exact all_node.2 (of_children le_rfl rfl (forall_children_two rfl carries block))
  | doBlock _ _ _ _ ih₁ ih₂ =>
      exact all_node.2 (of_fields le_rfl rfl
        (List.forall_mem_cons.2 ⟨ih₁ trivial, List.forall_mem_singleton.2 (ih₂ trivial)⟩))
  | bodyStmt _ _ _ _ ih₁ ih₂ ih₃ ih₄ =>
      refine all_node.2 (of_loose le_rfl rfl ?_)
      simp only [fields, List.forall_mem_cons]
      exact ⟨ih₁ trivial, anyAll (ih₂ trivial), ih₃ trivial, ih₄ trivial, List.forall_mem_nil _⟩
  | rescueMore _ _ _ _ _ ih₁ ih₂ ih₃ ih₄ =>
      exact all_some.2
        (Levelled.rescue (ih₁ trivial) (ih₂ trivial) (ih₃ trivial) (ih₄ trivial))
  | holderSome _ _ made ih =>
      exact all_some.2 ((all_node.1 (ih trivial)).target made)
  | blockVarBars => exact all_some.2 ⟨le_rfl, rfl⟩
  | blockVarSome _ _ _ ih =>
      exact all_some.2 (of_fields le_rfl rfl (List.forall_mem_singleton.2 (ih trivial)))
  | params _ _ ih => exact ih (List.forall_mem_nil _)
  | paramsDone => exact all_node.2 (of_children le_rfl rfl carries)
  | paramsLast _ _ _ _ _ ih =>
      have param := all_node.1 (ih trivial)
      exact all_node.2 (of_children le_rfl rfl (ParamList.forall_children_add carries param))
  | paramsExcess _ _ _ _ _ _ _ _ _ ih =>
      have param := all_node.1 (ih trivial)
      have added := ParamList.forall_children_add carries param
      exact all_node.2
        (of_children le_rfl rfl (ParamList.forall_children_rest added ⟨le_rfl, rfl⟩))
  | paramsMore _ _ _ _ _ _ _ _ ih₁ ih₂ =>
      have param := all_node.1 (ih₁ trivial)
      have added := ParamList.forall_children_add carries param
      exact ih₂ added
  | restParam | keywordRestParam =>
      unfold ParseState.paramName?
      split <;> exact all_node.2 ⟨le_rfl, rfl⟩
  | blockParam | keywordParam | nameParam | argumentBlockLone | parenEmpty =>
      exact all_node.2 ⟨le_rfl, rfl⟩
  | keywordDefault _ _ _ _ ih | optionalParam _ _ _ _ ih =>
      -- The levels of a default are the last ones of all.
      have default := all_node.1 (ih (List.suffix_append _ _))
      exact all_node.2 (of_children le_rfl rfl
        (forall_children_two rfl (Levelled.name.weaken (by decide)) default))
  | entryLabel _ _ _ ih | argumentLabel _ _ _ ih =>
      have value := all_node.1 (ih trivial)
      exact all_node.2 (of_children le_rfl rfl
        (forall_children_two rfl (Levelled.name.weaken (by decide)) value))
  | entryArrow _ _ _ _ _ _ _ ih₁ ih₂ | argumentArrow _ _ _ _ _ _ ih₁ ih₂ =>
      have key := all_node.1 (ih₁ trivial)
      have value := all_node.1 (ih₂ trivial)
      exact all_node.2 (of_children le_rfl rfl (forall_children_two rfl key value))
  | itemsLast _ _ ih | itemsClosed _ _ _ _ ih | entriesLast _ _ _ _ ih => exact ih carries
  | itemsMore _ _ _ _ _ ih₁ ih₂ | entriesMore _ _ _ _ _ _ ih₁ ih₂ =>
      exact List.forall_mem_cons.2 ⟨all_node.1 (ih₁ carries), ih₂ carries⟩
  | arguments _ ih =>
      have parts := Levelled.gatherEntries (ih trivial)
      exact all_node.2 (of_fields le_rfl rfl (List.forall_mem_singleton.2 parts))
  | indexFull _ _ _ _ _ _ ih => exact ih trivial

/-- In the tree of a source, the expressions below each node have the levels that it asks for.  An
operand is looser than the node above it only in parentheses or with a minus in an exponent, and an
operation is right below what counts as an operand only in parentheses. -/
theorem Node.grouped_of_source {source : String} {tree : Node}
    (parsed : Node.ofSource source = .ok tree) :
    ∀ node ∈ tree.preorder, node.grouped = true ∧
      ∀ operand ∈ node.operands,
        (operand.level < node.level →
          node.isOfKind .paren = true ∨ node.level = .power ∧ operand.level = .minus) ∧
        (node.level = .operand → operand.hasOperator = true → node.isOfKind .paren = true) := by
  obtain ⟨tokens, -, ran⟩ := tokens_of_source parsed
  obtain ⟨s, reads⟩ := Reads.of_parse ran
  have whole := (Field.all_node.1 (reads.levelled trivial)).grouped
  intro node mem
  have grouped := everywhere_iff_preorder.1 whole node mem
  refine ⟨grouped, fun operand below => ⟨paren_of_level_lt grouped below, ?_⟩⟩
  intro isOperand loose
  have looser := level_lt_of_hasOperator loose
  rw [← isOperand] at looser
  rcases paren_of_level_lt grouped below looser with isParen | ⟨isPower, -⟩
  · exact isParen
  · rw [isOperand] at isPower
    cases isPower

/-- Whether a tree has nodes of all levels. -/
def Node.hasLevels (tree : Node) : Bool :=
  (List.range 17).all fun height => tree.preorder.any (·.level.height == height)

/-- Whether an operand of a node is looser than the node. -/
def Node.hasLooser (node : Node) : Bool :=
  node.operands.any (·.level < node.level)

/-- All levels do occur, and so do both ways in which an operand is looser. -/
theorem Node.grouped_of_source_mixed :
    let source := "x = not 1..2 || 3 && 4 == 5 < 6 | 7 & 8 << 9 + 0 * -1 ** -!(y or z)[*x] and w"
    ∃ tree, Node.ofSource source = .ok tree ∧ tree.hasLevels = true ∧
      (tree.preorder.filter hasLooser).map kind = [.binary, .paren] ∧
      ∀ node ∈ tree.preorder, node.grouped = true ∧
        ∀ operand ∈ node.operands,
          (operand.level < node.level →
            node.isOfKind .paren = true ∨ node.level = .power ∧ operand.level = .minus) ∧
          (node.level = .operand → operand.hasOperator = true → node.isOfKind .paren = true) := by
  intro source
  obtain ⟨tree, parsed, mixed⟩ := exists_of_source
    (show (Node.ofSource source).toOption.any
      (fun tree => tree.hasLevels &&
        (tree.preorder.filter hasLooser).map kind == [.binary, .paren]) = true by decide +kernel)
  obtain ⟨levels, looser⟩ := Bool.and_eq_true_iff.1 mixed
  exact ⟨tree, parsed, levels, eq_of_beq looser, grouped_of_source parsed⟩

end RubyFormat
