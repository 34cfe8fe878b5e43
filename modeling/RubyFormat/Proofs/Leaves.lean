import Mathlib.Algebra.Group.Int.Defs
import Mathlib.Algebra.Group.Basic
import Mathlib.Data.List.Nodup
import RubyFormat.Proofs.Lexed
import RubyFormat.Proofs.Marks
import RubyFormat.Proofs.Progress
import RubyFormat.Proofs.Shape

/-!
# The leaves of a tree are the tokens of its source

A token that names or spells something is a leaf of the tree: a number, a string, a symbol, a
variable, a name, a label or a comment, with its text at its place.  Reading hands the leaves of the
tokens over to the nodes and doubles none.  It can lose one, though: a parameter list has one place
each for a `*`, a `**` and a `&` parameter, and a second one of a kind puts out the first, with its
name.  A leaf is lost exactly where the parameter that it names is replaced.
-/

namespace RubyFormat

/-- What a token and a leaf of the tree have in common. -/
structure Leaf where
  kind : TokenKind
  text : String
  pos : Pos
  deriving DecidableEq, Repr

namespace Token

/-- Whether a token becomes a leaf of the tree. -/
def isLeaf (token : Token) : Bool :=
  match token.kind with
  | .keyword | .op | .newline | .eof => false
  | _ => true

/-- The leaf that a token becomes. -/
def leaf (token : Token) : Leaf :=
  ⟨token.kind, token.text, token.pos⟩

/-- The leaves that a token becomes, of which there is at most one. -/
def leaves (token : Token) : List Leaf :=
  if token.isLeaf then [token.leaf] else []

end Token

/-- The leaf that a name is, unless it is a keyword or an operator. -/
def NameKind.leaves (pos : Pos) (text : String) : NameKind → List Leaf
  | .ident => [⟨.ident, text, pos⟩]
  | .const => [⟨.const, text, pos⟩]
  | .ivar => [⟨.ivar, text, pos⟩]
  | .cvar => [⟨.cvar, text, pos⟩]
  | .gvar => [⟨.gvar, text, pos⟩]
  | .label => [⟨.label, text, pos⟩]
  | .keyword | .op => []

namespace Node

mutual

/-- The leaves of a tree; the value of a symbol is the leaf of its token. -/
def leaves : Node → List Leaf
  | .name kind pos text => kind.leaves pos text
  | .literal kind pos text => [⟨kind.tokenKind, text, pos⟩]
  | .comment pos text => [⟨.comment, text, pos⟩]
  | .symbolLit _ value => [⟨.symbol, value.nameText, value.pos⟩]
  | .callShorthand _ | .excessedComma _ | .bare _ => []
  | .program _ nodes | .array _ nodes | .hash _ nodes | .bareAssocHash _ nodes
  | .valueList _ nodes | .splatValueList _ nodes | .args _ nodes => leavesList nodes
  | .varRef _ node | .splat _ node | .doubleSplat _ node | .vcall _ node | .blockParam _ node
  | .unary _ _ node | .paren _ node => leaves node
  | .varField _ node | .argParen _ node | .blockArg _ node | .restParam _ node
  | .keywordRestParam _ node | .blockVar _ node => leavesOption node
  | .assoc _ first second | .constPathRef _ first second | .field _ first _ second
  | .assign _ first second | .opAssign _ first _ second | .command _ first second
  | .methodAddBlock _ first second | .optionalParam _ first second | .binary _ first _ second =>
      leaves first ++ leaves second
  | .aref _ node arguments | .arefField _ node arguments | .fcall _ node arguments
  | .keywordParam _ node arguments => leaves node ++ leavesOption arguments
  | .commented _ stmt comments => leaves stmt ++ leavesList comments
  | .lambda _ parameters body | .braceBlock _ parameters body =>
      leavesOption parameters ++ leavesList body
  | .doBlock _ parameters body => leavesOption parameters ++ leaves body
  | .call _ receiver _ message arguments comments =>
      leaves receiver ++ leaves message ++ leavesOption arguments ++ leavesList comments
  | .params _ required optional rest post keywords keywordRest block =>
      leavesList required ++ leavesList optional ++ leavesOption rest ++ leavesList post
        ++ leavesList keywords ++ leavesOption keywordRest ++ leavesOption block
  | .rescue _ exceptions target stmts next =>
      leavesList exceptions ++ leavesOption target ++ leavesList stmts ++ leavesOption next
  | .bodyStmt _ stmts handler elseBody ensure =>
      leavesList stmts ++ leavesOption handler ++ leavesOptionList elseBody
        ++ leavesOptionList ensure

/-- The leaves of trees in a row. -/
def leavesList : List Node → List Leaf
  | [] => []
  | node :: rest => leaves node ++ leavesList rest

/-- The leaves of a tree that may be absent. -/
def leavesOption : Option Node → List Leaf
  | none => []
  | some node => leaves node

/-- The leaves of trees in a row that may be absent. -/
def leavesOptionList : Option (List Node) → List Leaf
  | none => []
  | some nodes => leavesList nodes

end

attribute [simp] leaves leavesList leavesOption leavesOptionList

@[simp]
theorem leavesList_append (nodes others : List Node) :
    leavesList (nodes ++ others) = leavesList nodes ++ leavesList others := by
  induction nodes with
  | nil => simp [leavesList]
  | cons node rest ih => simp [leavesList, ih]

/-- A comment is attached to a statement with all that it has. -/
theorem count_withComment (x : Leaf) (stmt remark : Node) :
    (stmt.withComment remark).leaves.count x = stmt.leaves.count x + remark.leaves.count x := by
  cases stmt with
  | call =>
      simp [withComment, leaves, leavesList]
      omega
  | _ => simp only [withComment, leaves, leavesList, List.append_nil, List.count_append]

/-- Gathering entries keeps the leaves of the arguments. -/
theorem leavesList_gatherEntries (parts : List Node) :
    leavesList (gatherEntries parts) = leavesList parts := by
  induction parts with
  | nil => rfl
  | cons part rest ih =>
      rw [gatherEntries, leavesList, ← ih]
      split
      · split
        next found => simp [found, leavesList, leaves]
        next => simp [leavesList, leaves]
      · rfl

theorem leaves_ofValues (pos : Pos) (values : List Node) :
    (ofValues pos values).leaves = leavesList values := by
  unfold ofValues
  split
  · rfl
  · split
    · simp [leavesList]
    · rfl

end Node

/-- The leaves of the nodes in a field. -/
@[simp]
def Field.leaves : Field Node → List Leaf
  | .text _ => []
  | .node value => value.leaves
  | .optional value => Node.leavesOption value
  | .list value => Node.leavesList value
  | .optionalList value => Node.leavesOptionList value

namespace ParamList

/-- The parameter that makes way for another of its kind. -/
def replaced (list : ParamList) : Node → Option Node
  | .restParam _ _ => list.rest
  | .keywordRestParam _ _ => list.keywordRest
  | .blockParam _ _ => list.block
  | _ => none

/-- A parameter does not replace one with the leaf. -/
def Spares (x : Leaf) (list : ParamList) (param : Node) : Prop :=
  (Node.leavesOption (list.replaced param)).count x = 0

theorem count_addName (x : Leaf) (list : ParamList) (name : Node) (pos : Pos) :
    ((list.addName name).toNode pos).leaves.count x =
      (list.toNode pos).leaves.count x + name.leaves.count x := by
  unfold addName
  split
  all_goals
    simp only [toNode, Node.leaves, Node.leavesList_append, Node.leavesList, List.append_nil,
      List.count_append]
    omega

/-- A parameter brings its leaves and takes those of the one that it replaces. -/
theorem count_add (x : Leaf) (list : ParamList) (param : Node) (pos : Pos) :
    ((list.add param).toNode pos).leaves.count x
        + (Node.leavesOption (list.replaced param)).count x =
      (list.toNode pos).leaves.count x + param.leaves.count x := by
  cases param
  case restParam | keywordRestParam | blockParam =>
    simp only [add, replaced, toNode, Node.leaves, Node.leavesOption, List.count_append]
    omega
  case keywordParam | optionalParam =>
    simp only [add, replaced, toNode, Node.leaves, Node.leavesList_append, Node.leavesList,
      Node.leavesOption, List.append_nil, List.count_append, List.count_nil]
    omega
  all_goals simp only [add, replaced, count_addName, Node.leavesOption, List.count_nil, Nat.add_zero]

/-- The parameters of which a list has at most one are made of names. -/
def Named (list : ParamList) : Prop :=
  ∀ slot ∈ [list.rest, list.keywordRest, list.block], ∀ leaf ∈ Node.leavesOption slot,
    leaf.kind = .ident

/-- What a parameter replaces is made of names. -/
theorem Named.replaced {list : ParamList} (named : list.Named) (param : Node) :
    ∀ leaf ∈ Node.leavesOption (list.replaced param), leaf.kind = .ident := by
  simp only [Named, List.forall_mem_cons] at named
  obtain ⟨rest, keywordRest, block, -⟩ := named
  cases param with
  | restParam => exact rest
  | keywordRestParam => exact keywordRest
  | blockParam => exact block
  | _ => exact nofun

/-- The comma that closes a list replaces nothing. -/
theorem count_excess (x : Leaf) {list : ParamList} {pos comma : Pos}
    (allowed : list.allowsExcessedComma = true) :
    (toNode { list with rest := some (.excessedComma comma) } pos).leaves.count x =
      (list.toNode pos).leaves.count x := by
  simp only [allowsExcessedComma, Bool.and_eq_true, Option.isNone_iff_eq_none] at allowed
  simp only [toNode, Node.leaves, Node.leavesOption, allowed.1.1.1]

end ParamList

/-! ## Leaves of tokens -/

namespace Token

variable {token : Token} {node : Node}

theorem leaves_of_isWord {word : String} (isWord : token.isWord word = true) :
    token.leaves = [] := by
  rcases kind_of_isWord isWord with op | keyword
  · simp [leaves, isLeaf, op]
  · simp [leaves, isLeaf, keyword]

theorem leaves_of_isOpIn {operators : List String} (isOp : token.isOpIn operators = true) :
    token.leaves = [] := by
  simp only [isOpIn, Bool.and_eq_true, beq_iff_eq] at isOp
  simp [leaves, isLeaf, isOp.1]

theorem leaves_of_isOp {operator : String} (isOp : token.isOp operator = true) :
    token.leaves = [] := by
  simp only [Token.isOp, Bool.and_eq_true, beq_iff_eq] at isOp
  simp [leaves, isLeaf, isOp.1]

theorem leaves_of_either {word other : String}
    (isWord : (token.isWord word || token.isWord other) = true) : token.leaves = [] := by
  rcases Bool.or_eq_true_iff.1 isWord with first | second
  · exact leaves_of_isWord first
  · exact leaves_of_isWord second

theorem leaves_of_newline (newline : token.kind = .newline) : token.leaves = [] := by
  simp [leaves, isLeaf, newline]

theorem leaves_of_isBreak (isBreak : token.isBreak = true) : token.leaves = [] := by
  rcases Bool.or_eq_true_iff.1 isBreak with newline | semicolon
  · exact leaves_of_newline (by simpa using newline)
  · exact leaves_of_isOp semicolon

/-- An operand has the leaf of its token. -/
theorem leaves_of_leaf? (found : token.leaf? = some node) : node.leaves = token.leaves := by
  unfold Token.leaf? at found
  split at found
  case h_5 =>
    split at found
    · cases found
    · cases found
      simp [Node.leaves, leaves, isLeaf, leaf, Parse.symbolName, Node.nameText, Node.pos, *]
  case h_9 =>
    split at found
    · cases found
      simp [Node.leaves, NameKind.leaves, leaves, isLeaf, *]
    · cases found
  case h_10 => cases found
  all_goals
    cases found
    simp [Node.leaves, NameKind.leaves, LiteralKind.tokenKind, leaves, isLeaf, leaf, *]

theorem leaves_of_callee? (found : token.callee? = some node) : node.leaves = token.leaves := by
  unfold Token.callee? at found
  split at found
  case h_3 => cases found
  all_goals
    cases found
    simp [Node.leaves, NameKind.leaves, leaves, isLeaf, leaf, *]

/-- A message has the leaf of its token, unless it is a keyword. -/
theorem leaves_of_message? (found : token.message? = some node) :
    node.leaves = token.leaves ∨ token.kind = .keyword ∧ node.leaves = [⟨.ident, token.text, token.pos⟩] := by
  unfold Token.message? at found
  split at found
  case h_2 keyword =>
    cases found
    exact .inr ⟨keyword, rfl⟩
  case h_4 =>
    split at found
    · cases found
      left
      simp [Node.leaves, NameKind.leaves, leaves, isLeaf, *]
    · cases found
  case h_5 => cases found
  all_goals
    cases found
    left
    simp [Node.leaves, NameKind.leaves, leaves, isLeaf, leaf, *]

end Token

/-- The target made of an expression has its leaves. -/
theorem Node.leaves_target {expr target : Node} {s s₁ : ParseState}
    (made : (Parse.target expr).run s = .ok (target, s₁)) (isExpr : expr.isExpr = true) :
    target.leaves = expr.leaves := by
  unfold Parse.target at made
  split at made <;>
    simp only [ParseM.run_bind_ok, ParseM.run_declare_ok, ParseM.run_pure_ok,
      ParseM.run_throw_ok, ParseM.exists_and_eq_left, Prod.mk.injEq] at made
  case h_1 =>
    obtain ⟨-, rfl, -⟩ := made
    simp [leaves, leavesOption]
  case h_3 =>
    obtain ⟨rfl, -⟩ := made
    simp [leaves, leavesOption]
  case h_4 =>
    obtain ⟨rfl, -⟩ := made
    have noComments := List.isEmpty_iff.1 isExpr
    simp [leaves, leavesOption, leavesList, noComments]
  all_goals
    obtain ⟨rfl, -⟩ := made
    simp [leaves]

/-! ## Handing leaves over -/

namespace ParseState

variable {x : Leaf} {s s₁ s₂ : ParseState} {count other : Int}

/-- How often a leaf is among the tokens ahead. -/
def owed (x : Leaf) (s : ParseState) : Int :=
  (s.ahead.flatMap Token.leaves).count x

/-- The tokens close with the end mark, and no keyword ahead is at the place of the leaf, if that
is a name. -/
def Tells (x : Leaf) (s : ParseState) : Prop :=
  s.close.kind = .eof ∧
    (x.kind = .ident → ∀ token ∈ s.ahead, token.kind = .keyword → token.pos ≠ x.pos)

/-- Between two states the leaf is taken as often as counted. -/
def Hands (x : Leaf) (s : ParseState) (count : Int) (s₁ : ParseState) : Prop :=
  s.Tells x → s₁.Tells x ∧ s.owed x = count + s₁.owed x

theorem Tells.moves (tells : s.Tells x) (moves : s.Moves s₁) : s₁.Tells x := by
  refine ⟨moves.eof tells.1, fun isName token ahead => ?_⟩
  exact tells.2 isName token (moves.ahead.subset ahead)

namespace Hands

theorem refl (x : Leaf) (s : ParseState) : s.Hands x 0 s := by
  intro tells
  exact ⟨tells, by simp⟩

theorem trans (first : s.Hands x count s₁) (second : s₁.Hands x other s₂) :
    s.Hands x (count + other) s₂ := by
  intro tells
  obtain ⟨tells, taken⟩ := first tells
  obtain ⟨tells, taken'⟩ := second tells
  exact ⟨tells, by omega⟩

theorem next (x : Leaf) (s : ParseState) : s.Hands x (s.current.leaves.count x) s.next := by
  intro tells
  refine ⟨tells.moves (.next s), ?_⟩
  obtain ⟨ahead, close, scopes, depth⟩ := s
  cases ahead with
  | nil =>
      have eof : close.kind = .eof := tells.1
      simp [owed, ParseState.next, current, Token.leaves, Token.isLeaf, eof]
  | cons token rest => simp [owed, ParseState.next, current]

theorem past (noLeaf : s.current.leaves = []) : s.Hands x 0 s.next := by
  have taken := next x s
  rwa [noLeaf] at taken

theorem word {word : String} (isWord : s.current.isWord word = true) : s.Hands x 0 s.next :=
  past (Token.leaves_of_isWord isWord)

theorem op {operator : String} (isOp : s.current.isOp operator = true) : s.Hands x 0 s.next :=
  past (Token.leaves_of_isOp isOp)

theorem opIn {operators : List String} (isOp : s.current.isOpIn operators = true) :
    s.Hands x 0 s.next :=
  past (Token.leaves_of_isOpIn isOp)

theorem pastNewlines (x : Leaf) (s : ParseState) : s.Hands x 0 s.pastNewlines := by
  intro tells
  refine ⟨tells.moves (.pastNewlines s), ?_⟩
  obtain ⟨ahead, close, scopes, depth⟩ := s
  simp only [owed, ParseState.pastNewlines, Int.zero_add, Int.natCast_inj]
  clear tells
  induction ahead with
  | nil => rfl
  | cons token rest ih =>
      rw [List.dropWhile_cons]
      split
      next newline =>
        rw [List.flatMap_cons, Token.leaves_of_newline (by simpa using newline), List.nil_append]
        exact ih
      next => rfl

theorem skips (passed : s.Skips s₁) : s.Hands x 0 s₁ := by
  obtain ⟨rfl, -⟩ := passed
  exact pastNewlines x s

theorem continued (x : Leaf) (s : ParseState) : s.Hands x 0 s.continued := by
  unfold ParseState.continued
  split
  · exact pastNewlines x s
  · exact refl x s

theorem pastThen (x : Leaf) (s : ParseState) : s.Hands x 0 s.pastThen := by
  unfold ParseState.pastThen
  split
  next isWord => exact word isWord
  next => exact refl x s

/-- A target is made before the operator behind it is taken. -/
theorem target {expr made : Node} (ran : (Parse.target expr).run s = .ok (made, s₁)) :
    s.Hands x 0 s₁ := by
  rcases states_of_target ran with rfl | ⟨name, rfl⟩
  · exact refl x s₁
  · exact refl x s

theorem assigning {expr made : Node} (ran : (Parse.target expr).run s = .ok (made, s₁))
    (noLeaf : s.current.leaves = []) : s.Hands x 0 s₁.next := by
  rcases states_of_target ran with rfl | ⟨name, rfl⟩
  · exact past noLeaf
  · exact past noLeaf

/-- Scopes and depths are nothing to the leaves. -/
theorem declaring {name : String} (hands : s.Hands x count s₁) :
    s.Hands x count (s₁.declaring name) :=
  hands

theorem opened (hands : s.Hands x count s₁) : s.Hands x count s₁.opened :=
  hands

theorem closed (hands : s.Hands x count s₁) : s.Hands x count s₁.closed :=
  hands

theorem atDepth {depth : Nat} (hands : s.Hands x count s₁) :
    s.Hands x count (s₁.atDepth depth) :=
  hands

/-- A token that is an operand hands out the leaf of its node. -/
theorem leaf {node : Node} (found : s.current.leaf? = some node) :
    s.Hands x (node.leaves.count x) s.next := by
  rw [Token.leaves_of_leaf? found]
  exact next x s

theorem callee {node : Node} (found : s.current.callee? = some node) :
    s.Hands x (node.leaves.count x) s.next := by
  rw [Token.leaves_of_callee? found]
  exact next x s

theorem message {node : Node} (found : s.current.message? = some node) :
    s.Hands x (node.leaves.count x) s.next := by
  intro tells
  rcases Token.leaves_of_message? found with same | ⟨keyword, named⟩
  · rw [same]
    exact next x s tells
  · have there := ahead_ne_nil tells.1 (Token.kind_of_message? found)
    have apart (isName : x.kind = .ident) : s.current.pos ≠ x.pos := by
      obtain ⟨ahead, close, scopes, depth⟩ := s
      cases ahead with
      | nil => exact absurd rfl there
      | cons token rest => exact tells.2 isName token List.mem_cons_self keyword
    have noLeaf : node.leaves.count x = 0 := by
      rw [named, List.count_eq_zero, List.mem_singleton]
      intro same
      exact apart (congrArg Leaf.kind same) (congrArg Leaf.pos same).symm
    rw [noLeaf]
    exact past (by simp [Token.leaves, Token.isLeaf, keyword]) tells

theorem ident (kind : s.current.kind = .ident) :
    s.Hands x ((Node.name .ident s.current.pos s.current.text).leaves.count x) s.next :=
  callee (by simp [Token.callee?, kind])

theorem const (kind : s.current.kind = .const) :
    s.Hands x ((Node.name .const s.current.pos s.current.text).leaves.count x) s.next :=
  callee (by simp [Token.callee?, kind])

theorem label (kind : s.current.kind = .label) :
    s.Hands x ((Node.name .label s.current.pos s.current.text).leaves.count x) s.next := by
  have same : (Node.name .label s.current.pos s.current.text).leaves = s.current.leaves := by
    simp [Node.leaves, NameKind.leaves, Token.leaves, Token.isLeaf, Token.leaf, kind]
  rw [same]
  exact next x s

theorem comment (kind : s.current.kind = .comment) :
    s.Hands x ((Node.comment s.current.pos s.current.text).leaves.count x) s.next := by
  have same : (Node.comment s.current.pos s.current.text).leaves = s.current.leaves := by
    simp [Node.leaves, Token.leaves, Token.isLeaf, Token.leaf, kind]
  rw [same]
  exact next x s

theorem paramName? (x : Leaf) (s : ParseState) :
    s.Hands x ((Node.leavesOption s.paramName?.1).count x) s.paramName?.2 := by
  unfold ParseState.paramName?
  split
  next kind => exact (ident (by simpa using kind)).declaring
  next => exact refl x s

end Hands

end ParseState

/-- The leaves of the nodes that a rule goes on with. -/
@[simp]
def Rule.held : Rule → List Leaf
  | .joined left | .chain _ _ left | .suffixes left | .callSuffix left | .block _ left =>
      left.leaves
  | .paramList _ pos list => (list.toNode pos).leaves
  | _ => []

/-- A rule that repeats another goes on with no nodes of that, a call starts with its operator, and
parameters that can be replaced are made of names. -/
def Rule.Plain : Rule → ParseState → Prop
  | .items item _, _ | .entries item _, _ => item.held = [] ∧ ∀ s, item.Plain s
  | .callSuffix _, s => s.current.isOpIn callOperators = true
  | .paramList _ _ list, _ => list.Named
  | _, _ => True

@[simp]
theorem Rule.held_rightSide (takesList : Bool) : (Rule.rightSide takesList).held = [] := by
  cases takesList <;> rfl

theorem Rule.plain_rightSide (takesList : Bool) (s : ParseState) :
    (Rule.rightSide takesList).Plain s := by
  cases takesList <;> trivial

/--
Between two states the leaf is counted right, up to those that are lost.  If none is, then `spared`
holds, and none is if all parameters that fit spare the leaf.
-/
def Settled (x : Leaf) (fits : ParamList → Node → Prop) (s : ParseState) (count : Int)
    (s₁ : ParseState) (spared : Prop) : Prop :=
  ∃ lost : Nat, s.Hands x (count + lost) s₁ ∧ (lost = 0 → spared) ∧
    ((∀ list param, fits list param → list.Spares x param) → lost = 0)

namespace Settled

variable {x : Leaf} {fits : ParamList → Node → Prop} {s s₁ s₂ : ParseState} {count other : Int}
  {spared also : Prop}

theorem of_hands (hands : s.Hands x count s₁) : Settled x fits s count s₁ True :=
  ⟨0, by simpa using hands, fun _ => trivial, fun _ => rfl⟩

theorem trans (first : Settled x fits s count s₁ spared)
    (second : Settled x fits s₁ other s₂ also) :
    Settled x fits s (count + other) s₂ (spared ∧ also) := by
  obtain ⟨lost, hands, spares, keeps⟩ := first
  obtain ⟨lost', hands', spares', keeps'⟩ := second
  refine ⟨lost + lost', ?_, ?_, ?_⟩
  · have taken := hands.trans hands'
    rwa [show count + lost + (other + lost') = count + other + ((lost + lost' : Nat) : Int) by
      omega] at taken
  · intro none
    exact ⟨spares (by omega), spares' (by omega)⟩
  · intro fit
    rw [keeps fit, keeps' fit]

theorem before (settled : Settled x fits s₁ count s₂ spared) (hands : s.Hands x other s₁) :
    Settled x fits s (other + count) s₂ spared := by
  obtain ⟨lost, after, spares, keeps⟩ := settled
  refine ⟨lost, ?_, spares, keeps⟩
  rw [Int.add_assoc]
  exact hands.trans after

theorem after (settled : Settled x fits s count s₁ spared) (hands : s₁.Hands x other s₂) :
    Settled x fits s (count + other) s₂ spared := by
  obtain ⟨lost, before, spares, keeps⟩ := settled
  refine ⟨lost, ?_, spares, keeps⟩
  rw [Int.add_right_comm]
  exact before.trans hands

/-- What a parameter replaces is lost. -/
theorem replacing {list : ParamList} {param : Node} (settled : Settled x fits s count s₁ spared)
    (fit : fits list param) :
    Settled x fits s (count - (Node.leavesOption (list.replaced param)).count x) s₁
      (spared ∧ list.Spares x param) := by
  obtain ⟨lost, hands, spares, keeps⟩ := settled
  refine ⟨lost + (Node.leavesOption (list.replaced param)).count x, ?_, ?_, ?_⟩
  · intro tells
    obtain ⟨tells, taken⟩ := hands tells
    exact ⟨tells, by omega⟩
  · intro none
    exact ⟨spares (by omega), by unfold ParamList.Spares; omega⟩
  · intro fitting
    rw [keeps fitting, fitting list param fit]

/-- If fewer parameters fit, no more leaves are lost. -/
theorem mono {fewer : ParamList → Node → Prop} (settled : Settled x fewer s count s₁ spared)
    (fit : ∀ {list param}, fewer list param → fits list param) :
    Settled x fits s count s₁ spared := by
  obtain ⟨lost, hands, spares, keeps⟩ := settled
  exact ⟨lost, hands, spares, fun fitting => keeps fun list param fits => fitting list param (fit fits)⟩

/-- The parts of a construct are put together to the whole. -/
theorem build (settled : Settled x fits s count s₁ spared) (same : other = count)
    (put : spared → also) : Settled x fits s other s₁ also := by
  obtain ⟨lost, hands, spares, keeps⟩ := settled
  exact ⟨lost, same ▸ hands, fun none => put (spares none), keeps⟩

end Settled

namespace Derives

open ParseState

variable {fits : ParamList → Node → Prop} {rule : Rule} {s s₁ : ParseState} {field : Field Node}

/-- A parameter that can be replaced is made of names. -/
theorem named_add {closer : String} {list : ParamList} {param : Node}
    (reads : Derives fits (.param closer) s (.node param) s₁) (named : list.Named) :
    (list.add param).Named := by
  have nameless : ∀ leaf ∈ Node.leavesOption (s.next.paramName?).1, leaf.kind = .ident := by
    unfold ParseState.paramName?
    split <;> simp [NameKind.leaves]
  simp only [ParamList.Named, List.forall_mem_cons] at named ⊢
  cases reads with
  | restParam => exact ⟨nameless, named.2⟩
  | keywordRestParam => exact ⟨named.1, nameless, named.2.2⟩
  | blockParam => exact ⟨named.1, named.2.1, by simp [ParamList.add, NameKind.leaves], nofun⟩
  | keywordParam | keywordDefault | optionalParam => exact named
  | nameParam =>
      simp only [ParamList.add, ParamList.addName]
      split <;> exact named

/-- Reading by a rule counts a leaf right, up to those of the parameters that are replaced, which
are made of names. -/
def SettlesNamed (fits : ParamList → Node → Prop) (x : Leaf) (rule : Rule) (s : ParseState)
    (field : Field Node) (s₁ : ParseState) : Prop :=
  rule.Plain s → Settled x (fun list param => fits list param ∧ list.Named) s
    (field.leaves.count x - rule.held.count x) s₁ (Derives (ParamList.Spares x) rule s field s₁)

variable {x : Leaf} {reads : Derives fits rule s field s₁}

section Families

variable (parts : reads.Parts (SettlesNamed fits x))
include parts

theorem settles_statements (family : rule.family = .statements) :
    SettlesNamed fits x rule s field s₁ := by
  intro _
  cases parts with
  | program _ eof _ body =>
      exact (body trivial).build (by simp) fun body => .program body eof
  | stmtsDone ends =>
      exact (Settled.of_hands (.refl _ _)).build (by simp) fun _ => .stmtsDone ends
  | stmtsBreak more isBreak _ _ rest =>
      exact ((rest trivial).before (.past (Token.leaves_of_isBreak isBreak))).build (by simp)
        fun rest => .stmtsBreak more isBreak rest
  | stmtsComment more kind _ _ rest =>
      exact ((rest trivial).before (.comment kind)).build (by simp [List.count_cons]; omega)
        fun rest => .stmtsComment more kind rest
  | stmtsRemark more noBreak noComment _ kind _ _ stmt _ rest =>
      refine (((stmt trivial).after (.comment kind)).trans (rest trivial)).build ?_
        (And.elim fun stmt rest => .stmtsRemark more noBreak noComment stmt kind rest)
      simp only [Rule.held, Field.leaves, Node.leavesList, List.count_append, List.count_nil,
        Node.count_withComment]
      omega
  | stmtsLast more noBreak noComment _ noRemark ends _ stmt =>
      exact (stmt trivial).build (by simp)
        fun stmt => .stmtsLast more noBreak noComment stmt noRemark ends
  | stmtsMore more noBreak noComment _ noRemark goesOn ends _ _ stmt _ rest =>
      exact ((stmt trivial).trans (rest trivial)).build (by simp) <|
        And.elim fun stmt rest => .stmtsMore more noBreak noComment stmt noRemark goesOn ends rest
  | stmt own _ noComma _ inner =>
      exact (inner trivial).build (by simp) fun inner => .stmt own inner noComma
  | _ => cases family

theorem settles_assignments (family : rule.family = .assignments) :
    SettlesNamed fits x rule s field s₁ := by
  intro plain
  cases parts with
  | unassigned _ noEquals noOperator _ expr =>
      exact (expr trivial).build (by simp) fun expr => .unassigned expr noEquals noOperator
  | assign read equals made skips _ _ expr _ value =>
      have same := Node.leaves_target made (read.shaped trivial).kind
      refine (((expr trivial).after ((Hands.assigning made (Token.leaves_of_isOp equals)).trans
          (.skips skips))).trans (value (Rule.plain_rightSide _ _))).build ?_
        (And.elim fun expr value => .assign expr equals made skips value)
      rw [Rule.held_rightSide]
      simp only [Rule.held, Field.leaves, Node.leaves, same, List.count_append, List.count_nil]
      omega
  | opAssign read noEquals isOp made skips _ _ expr _ value =>
      have same := Node.leaves_target made (read.shaped trivial).kind
      refine (((expr trivial).after ((Hands.assigning made (Token.leaves_of_isOpIn isOp)).trans
          (.skips skips))).trans (value trivial)).build ?_
        (And.elim fun expr value => .opAssign expr noEquals isOp made skips value)
      simp only [Rule.held, Field.leaves, Node.leaves, same, List.count_append, List.count_nil]
      omega
  | values _ _ items =>
      refine (items ⟨rfl, fun _ => trivial⟩).build ?_ (fun items => .values items)
      simp only [Rule.held, Field.leaves, Node.leaves_ofValues]
  | listedSplat star _ _ value =>
      exact ((value trivial).before (.word star)).build (by simp)
        fun value => .listedSplat star value
  | listedPlain noStar _ _ value =>
      exact (value trivial).build (by simp) fun value => .listedPlain noStar value
  | _ => cases family

theorem settles_junctions (family : rule.family = .junctions) :
    SettlesNamed fits x rule s field s₁ := by
  intro _
  cases parts with
  | expression _ _ _ left _ joined =>
      exact ((left trivial).trans (joined trivial)).build (by simp) <|
        And.elim fun left joined => .expression left joined
  | joinedDone ends =>
      exact (Settled.of_hands (.refl _ _)).build (by simp) fun _ => .joinedDone ends
  | joinedMore word skips _ _ _ right _ joined =>
      have noLeaf := Token.leaves_of_either word
      exact (((right trivial).trans (joined trivial)).before
        ((Hands.past noLeaf).trans (.skips skips))).build (by simp; omega) <|
        And.elim fun right joined => .joinedMore word skips right joined
  | not word _ _ operand =>
      exact ((operand trivial).before (.word word)).build (by simp) fun operand => .not word operand
  | notNegated noWord _ _ range =>
      exact (range trivial).build (by simp) fun range => .notNegated noWord range
  | rangeBetween _ dots _ _ left _ right =>
      have noLeaf := Token.leaves_of_either dots
      exact (((left trivial).after (.past noLeaf)).trans (right trivial)).build (by simp) <|
        And.elim fun left right => .rangeBetween left dots right
  | notRange _ noDots _ operations =>
      exact (operations trivial).build (by simp) fun operations => .notRange operations noDots
  | _ => cases family

theorem settles_operations (family : rule.family = .operations) :
    SettlesNamed fits x rule s field s₁ := by
  intro _
  cases parts with
  | tightest _ _ minus =>
      exact (minus trivial).build (by simp) fun minus => .tightest minus
  | level _ _ _ left _ chain =>
      exact ((left trivial).trans (chain trivial)).build (by simp) <|
        And.elim fun left chain => .level left chain
  | chainDone ends =>
      exact (Settled.of_hands (.refl _ _)).build (by simp) fun _ => .chainDone ends
  | chainMore chains isOp skips _ _ _ right _ chain =>
      exact (((right trivial).trans (chain trivial)).before
        ((Hands.opIn isOp).trans (.skips skips))).build (by simp; omega) <|
        And.elim fun right chain => .chainMore chains isOp skips right chain
  | chainOnce once isOp skips _ _ right =>
      exact ((right trivial).before ((Hands.opIn isOp).trans (.skips skips))).build (by simp)
        fun right => .chainOnce once isOp skips right
  | minus word _ _ operand =>
      exact ((operand trivial).before (.word word)).build (by simp)
        fun operand => .minus word operand
  | notMinus noWord _ _ power =>
      exact (power trivial).build (by simp) fun power => .notMinus noWord power
  | power _ word skips _ _ left _ right =>
      exact (((left trivial).after ((Hands.word word).trans (.skips skips))).trans
        (right trivial)).build (by simp) <|
        And.elim fun left right => .power left word skips right
  | notPower _ noWord _ unary =>
      exact (unary trivial).build (by simp) fun unary => .notPower unary noWord
  | unary mark _ _ operand =>
      have noLeaf := (Bool.or_eq_true_iff.1 mark).elim Token.leaves_of_either Token.leaves_of_isWord
      exact ((operand trivial).before (.past noLeaf)).build (by simp)
        fun operand => .unary mark operand
  | notUnary noMark _ _ operand =>
      exact (operand trivial).build (by simp) fun operand => .notUnary noMark operand
  | _ => cases family

theorem settles_messages (family : rule.family = .messages) :
    SettlesNamed fits x rule s field s₁ := by
  intro plain
  cases parts with
  | operand _ _ _ primary _ suffixes =>
      exact ((primary trivial).trans (suffixes trivial)).build (by simp) <|
        And.elim fun primary suffixes => .operand primary suffixes
  | suffixesDone ends noCall noIndex =>
      exact (Settled.of_hands (.refl _ _)).build (by simp)
        fun _ => .suffixesDone ends noCall noIndex
  | suffixesCall isCall _ _ _ call _ suffixes =>
      exact (((call isCall).trans (suffixes trivial)).before (.continued _ _)).build
        (by simp) <|
        And.elim fun call suffixes => .suffixesCall isCall call suffixes
  | suffixesIndex isIndex _ _ _ index _ suffixes =>
      exact ((index trivial).trans (suffixes trivial)).build (by simp; omega) <|
        And.elim fun index suffixes => .suffixesIndex isIndex index suffixes
  | callShorthand skips isParen _ _ _ args _ block =>
      exact (((args trivial).trans (block trivial)).before
        ((Hands.opIn plain).trans (.skips skips))).build (by simp; omega) <|
        And.elim fun args block => .callShorthand skips isParen args block
  | constPath skips message isConst noParen =>
      exact (Settled.of_hands
        (((Hands.opIn plain).trans (.skips skips)).trans (.message message))).build (by simp)
        fun _ => .constPath skips message isConst noParen
  | callBare skips message notConst noParen _ _ block =>
      exact ((block trivial).before
        (((Hands.opIn plain).trans (.skips skips)).trans (.message message))).build (by simp; omega)
        fun block => .callBare skips message notConst noParen block
  | callArgs skips message isParen _ _ _ args _ block =>
      exact (((args trivial).trans (block trivial)).before
        (((Hands.opIn plain).trans (.skips skips)).trans (.message message))).build
        (by simp; omega) <|
        And.elim fun args block => .callArgs skips message isParen args block
  | _ => cases family

theorem settles_operands (family : rule.family = .operands) :
    SettlesNamed fits x rule s field s₁ := by
  intro _
  cases parts with
  | leaf found =>
      exact (Settled.of_hands (.leaf found)).build (by simp) fun _ => .leaf found
  | constant kind noParen =>
      exact (Settled.of_hands (.const kind)).build (by simp) fun _ => .constant kind noParen
  | fcall found isParen _ _ _ args _ block =>
      exact (((args trivial).trans (block trivial)).before (.callee found)).build
        (by simp; omega) <|
        And.elim fun args block => .fcall found isParen args block
  | localVar kind noParen isLocal =>
      exact (Settled.of_hands (.ident kind)).build (by simp) fun _ => .localVar kind noParen isLocal
  | command kind noParen notLocal starts _ _ _ args _ block =>
      exact ((((args trivial).before (Hands.ident kind).atDepth).after
        (Hands.refl _ _).atDepth).trans (block trivial)).build (by simp) <|
        And.elim fun args block => .command kind noParen notLocal starts args block
  | fcallBlock kind noParen notLocal noArgument opens _ _ block =>
      exact ((block trivial).before (.ident kind)).build (by simp)
        fun block => .fcallBlock kind noParen notLocal noArgument opens block
  | vcall kind noParen notLocal noArgument noBlock =>
      exact (Settled.of_hands (.ident kind)).build (by simp)
        fun _ => .vcall kind noParen notLocal noArgument noBlock
  | paren opens skips _ skips' closes _ inner =>
      exact (((inner trivial).before ((Hands.op opens).trans (.skips skips))).after
        ((Hands.skips skips').trans (.word closes))).build (by simp)
        fun inner => .paren opens skips inner skips' closes
  | array opens skips _ closes _ entries =>
      exact (((entries ⟨rfl, fun _ => trivial⟩).before ((Hands.op opens).atDepth.trans
        (.skips skips))).after (Hands.word closes).atDepth).build (by simp)
        fun entries => .array opens skips entries closes
  | hash opens skips _ closes _ entries =>
      exact (((entries ⟨rfl, fun _ => trivial⟩).before ((Hands.op opens).atDepth.trans
        (.skips skips))).after (Hands.word closes).atDepth).build (by simp)
        fun entries => .hash opens skips entries closes
  | lambda opens _ _ _ params _ body =>
      exact ((((params trivial).trans (body trivial)).before (Hands.op opens).opened).after
        (Hands.refl _ _).closed).build (by simp) <|
        And.elim fun params body => .lambda opens params body
  | _ => cases family

theorem settles_blocks (family : rule.family = .blocks) : SettlesNamed fits x rule s field s₁ := by
  intro _
  cases parts with
  | blockBraces opens _ _ block =>
      exact (block trivial).build (by simp) fun block => .blockBraces opens block
  | blockDo isDo _ _ block =>
      exact (block trivial).build (by simp) fun block => .blockDo isDo block
  | blockNone noBraces noDo =>
      exact (Settled.of_hands (.refl _ _)).build (by simp) fun _ => .blockNone noBraces noDo
  | braceBlock opens skips _ _ closes _ params _ body =>
      exact ((((params trivial).trans (body trivial)).before
        ((Hands.word opens).atDepth.opened.trans (.skips skips))).after
        (Hands.word closes).closed.atDepth).build (by simp) <|
        And.elim fun params body => .braceBlock opens skips params body closes
  | doBlock opens _ _ closes _ params _ body =>
      exact ((((params trivial).trans (body trivial)).before
        (Hands.word opens).atDepth.opened).after (Hands.word closes).closed.atDepth).build
        (by simp) <|
        And.elim fun params body => .doBlock opens params body closes
  | blockVarBars bars =>
      exact (Settled.of_hands (.word bars)).build (by simp) fun _ => .blockVarBars bars
  | blockVarSome opens _ closes _ params =>
      exact (((params trivial).before (.word opens)).after (.word closes)).build (by simp)
        fun params => .blockVarSome opens params closes
  | blockVarNone noBars noBar =>
      exact (Settled.of_hands (.refl _ _)).build (by simp) fun _ => .blockVarNone noBars noBar
  | lambdaParen opens _ closes _ params =>
      exact (((params trivial).before (.word opens)).after (.word closes)).build (by simp)
        fun params => .lambdaParen opens params closes
  | lambdaNone opens =>
      exact (Settled.of_hands (.refl _ _)).build (by simp) fun _ => .lambdaNone opens
  | lambdaBare noParen noBody _ _ params =>
      exact (params trivial).build (by simp) fun params => .lambdaBare noParen noBody params
  | lambdaBraces opens _ closes _ stmts =>
      exact (((stmts trivial).before (.word opens)).after (.word closes)).build (by simp)
        fun stmts => .lambdaBraces opens stmts closes
  | lambdaDo opens _ closes _ stmts =>
      exact (((stmts trivial).before (.word opens)).after (.word closes)).build (by simp)
        fun stmts => .lambdaDo opens stmts closes
  | _ => cases family

theorem settles_clauses (family : rule.family = .clauses) :
    SettlesNamed fits x rule s field s₁ := by
  intro _
  cases parts with
  | bodyStmt _ _ _ _ _ stmts _ rescue _ elseBody _ ensure =>
      exact ((((stmts trivial).trans (rescue trivial)).trans (elseBody trivial)).trans
        (ensure trivial)).build (by simp; omega) <|
        And.elim fun parts ensure => .bodyStmt parts.1.1 parts.1.2 parts.2 ensure
  | rescueNone noWord =>
      exact (Settled.of_hands (.refl _ _)).build (by simp) fun _ => .rescueNone noWord
  | rescueMore word _ _ _ _ _ exceptions _ holder _ stmts _ rescue =>
      exact ((((((exceptions trivial).before (.word word)).trans (holder trivial)).after
        (.pastThen _ _)).trans (stmts trivial)).trans (rescue trivial)).build (by simp; omega) <|
        And.elim fun parts rescue => .rescueMore word parts.1.1 parts.1.2 parts.2 rescue
  | exceptionsNone ends =>
      exact (Settled.of_hands (.refl _ _)).build (by simp) fun _ => .exceptionsNone ends
  | exceptionsSome more _ _ items =>
      exact (items ⟨rfl, fun _ => trivial⟩).build (by simp) fun items => .exceptionsSome more items
  | holderNone noArrow =>
      exact (Settled.of_hands (.refl _ _)).build (by simp) fun _ => .holderNone noArrow
  | holderSome arrow read made _ primary =>
      have same := Node.leaves_target made (read.shaped trivial).kind
      refine (((primary trivial).before (.word arrow)).after (.target made)).build ?_
        (fun primary => .holderSome arrow primary made)
      simp only [Rule.held, Field.leaves, Node.leavesOption, same, List.count_nil]
      omega
  | clauseNone noWord =>
      exact (Settled.of_hands (.refl _ _)).build (by simp) fun _ => .clauseNone noWord
  | clauseSome word _ _ stmts =>
      exact ((stmts trivial).before (.word word)).build (by simp)
        fun stmts => .clauseSome word stmts
  | _ => cases family

theorem settles_parameters (family : rule.family = .parameters) :
    SettlesNamed fits x rule s field s₁ := by
  intro plain
  cases parts with
  | params skips _ _ list =>
      have named : ParamList.Named {} := by simp [ParamList.Named]
      refine ((list named).before (.skips skips)).build ?_ (fun list => .params skips list)
      simp only [Rule.held, ParamList.toNode, Node.leaves, Node.leavesList, Node.leavesOption,
        List.append_nil, List.count_nil]
      omega
  | paramsDone closes =>
      exact (Settled.of_hands (.refl _ _)).build (by simp) fun _ => .paramsDone closes
  | @paramsLast _ pos list _ _ _ param' more _ fit skips noComma _ param =>
      have sum := list.count_add x param' pos
      refine (((param trivial).replacing ⟨fit, plain⟩).after (.skips skips)).build ?_
        (And.elim fun param spares => .paramsLast more param spares skips noComma)
      simp only [Rule.held, Field.leaves, List.count_nil]
      omega
 
  | @paramsExcess _ pos list _ _ _ _ param' more _ fit skips comma skips' closes bar allowed _
      param =>
      have sum := list.count_add x param' pos
      refine (((param trivial).replacing ⟨fit, plain⟩).after
        (((Hands.skips skips).trans (.word comma)).trans (.skips skips'))).build ?_
        (And.elim fun param spares =>
          .paramsExcess more param spares skips comma skips' closes bar allowed)
      rw [Field.leaves, ParamList.count_excess x allowed]
      simp only [Rule.held, Field.leaves, List.count_nil]
      omega
 
  | @paramsMore _ pos list _ _ _ _ _ param' _ more read fit skips comma skips' goesOn _ _ param _
      rest =>
      have sum := list.count_add x param' pos
      refine ((((param trivial).replacing ⟨fit, plain⟩).after
        (((Hands.skips skips).trans (.word comma)).trans (.skips skips'))).trans
        (rest (read.named_add plain))).build ?_
        (And.elim fun param rest =>
          .paramsMore more param.1 param.2 skips comma skips' goesOn rest)
      simp only [Rule.held, Field.leaves, List.count_nil]
      omega
  | restParam star =>
      exact (Settled.of_hands ((Hands.word star).trans (.paramName? _ _))).build (by simp)
        fun _ => .restParam star
  | keywordRestParam star =>
      exact (Settled.of_hands ((Hands.word star).trans (.paramName? _ _))).build (by simp)
        fun _ => .keywordRestParam star
  | blockParam amp kind =>
      exact (Settled.of_hands ((Hands.word amp).trans (Hands.ident kind).declaring)).build (by simp)
        fun _ => .blockParam amp kind
  | keywordParam kind after ends =>
      subst after
      exact (Settled.of_hands (Hands.label kind).declaring).build (by simp)
        fun _ => .keywordParam kind rfl ends
  | keywordDefault kind after more _ _ default =>
      subst after
      exact ((default trivial).before (Hands.label kind).declaring).build (by simp)
        fun default => .keywordDefault kind rfl more default
  | optionalParam kind after equals _ _ default =>
      subst after
      exact ((default trivial).before ((Hands.ident kind).declaring.trans (.word equals))).build
        (by simp) fun default => .optionalParam kind rfl equals default
  | nameParam kind after noEquals =>
      subst after
      exact (Settled.of_hands (Hands.ident kind).declaring).build (by simp)
        fun _ => .nameParam kind rfl noEquals
  | _ => cases family

theorem settles_lists (family : rule.family = .lists) : SettlesNamed fits x rule s field s₁ := by
  intro plain
  cases parts with
  | itemsLast _ noComma _ item =>
      refine (item (plain.2 _)).build ?_ (fun item => .itemsLast item noComma)
      rw [plain.1]
      simp only [Rule.held, Field.leaves, Node.leavesList, List.append_nil]
  | itemsClosed _ comma skips closes _ item =>
      refine ((item (plain.2 _)).after ((Hands.word comma).trans (.skips skips))).build ?_
        (fun item => .itemsClosed item comma skips closes)
      rw [plain.1]
      simp only [Rule.held, Field.leaves, Node.leavesList, List.append_nil]
      omega
  | itemsMore _ comma skips goesOn _ _ item _ rest =>
      refine (((item (plain.2 _)).after ((Hands.word comma).trans (.skips skips))).trans
        (rest plain)).build ?_ (And.elim fun item rest => .itemsMore item comma skips goesOn rest)
      rw [plain.1]
      simp only [Rule.held, Field.leaves, Node.leavesList, List.count_append,
        List.count_nil]
      omega
  | entriesDone closes =>
      exact (Settled.of_hands (.refl _ _)).build (by simp) fun _ => .entriesDone closes
  | entriesLast more _ skips noComma _ item =>
      refine ((item (plain.2 _)).after (.skips skips)).build ?_
        (fun item => .entriesLast more item skips noComma)
      rw [plain.1]
      simp only [Rule.held, Field.leaves, Node.leavesList, List.append_nil]
      omega
  | entriesMore more _ skips comma skips' _ _ item _ rest =>
      refine (((item (plain.2 _)).after (((Hands.skips skips).trans (.word comma)).trans
        (.skips skips'))).trans (rest plain)).build ?_
        (And.elim fun item rest => .entriesMore more item skips comma skips' rest)
      rw [plain.1]
      simp only [Rule.held, Field.leaves, Node.leavesList, List.count_append,
        List.count_nil]
      omega
  | elementSplat star _ _ value =>
      exact ((value trivial).before (.word star)).build (by simp)
        fun value => .elementSplat star value
  | elementPlain noStar _ _ value =>
      exact (value trivial).build (by simp) fun value => .elementPlain noStar value
  | entrySplat stars _ _ value =>
      exact ((value trivial).before (.word stars)).build (by simp)
        fun value => .entrySplat stars value
  | entryLabel kind skips _ _ value =>
      exact ((value trivial).before ((Hands.label kind).trans (.skips skips))).build (by simp)
        fun value => .entryLabel kind skips value
  | entryArrow noStars noLabel _ skips arrow skips' _ _ key _ value =>
      exact (((key trivial).after (((Hands.skips skips).trans (.word arrow)).trans
        (.skips skips'))).trans (value trivial)).build (by simp) <|
        And.elim fun key value => .entryArrow noStars noLabel key skips arrow skips' value
  | _ => cases family

theorem settles_arguments (family : rule.family = .arguments) :
    SettlesNamed fits x rule s field s₁ := by
  intro _
  cases parts with
  | arguments _ _ items =>
      refine (items ⟨rfl, fun _ => trivial⟩).build ?_ (fun items => .arguments items)
      simp only [Rule.held, Field.leaves, Node.leaves, Node.leavesList_gatherEntries]
  | argumentSplat star _ _ value =>
      exact ((value trivial).before (.word star)).build (by simp)
        fun value => .argumentSplat star value
  | argumentDoubleSplat stars _ _ value =>
      exact ((value trivial).before (.word stars)).build (by simp)
        fun value => .argumentDoubleSplat stars value
  | argumentBlockLone amp ends =>
      exact (Settled.of_hands (.word amp)).build (by simp) fun _ => .argumentBlockLone amp ends
  | argumentBlock amp more _ _ value =>
      exact ((value trivial).before (.word amp)).build (by simp)
        fun value => .argumentBlock amp more value
  | argumentLabel kind skips _ _ value =>
      exact ((value trivial).before ((Hands.label kind).trans (.skips skips))).build (by simp)
        fun value => .argumentLabel kind skips value
  | argumentPlain noMark noLabel _ noArrow _ value =>
      exact (value trivial).build (by simp) fun value => .argumentPlain noMark noLabel value noArrow
  | argumentArrow noMark noLabel _ arrow skips _ _ key _ value =>
      exact (((key trivial).after ((Hands.word arrow).trans (.skips skips))).trans
        (value trivial)).build (by simp) <|
        And.elim fun key value => .argumentArrow noMark noLabel key arrow skips value
  | parenEmpty opens skips closes =>
      exact (Settled.of_hands (((Hands.word opens).atDepth.trans (.skips skips)).trans
        (Hands.word closes).atDepth)).build (by simp)
        fun _ => .parenEmpty opens skips closes
  | parenFull opens skips more _ skips' closes _ args =>
      exact (((args trivial).before ((Hands.word opens).atDepth.trans (.skips skips))).after
        ((Hands.skips skips').trans (Hands.word closes).atDepth)).build (by simp)
        fun args => .parenFull opens skips more args skips' closes
  | indexEmpty opens skips closes =>
      exact (Settled.of_hands (((Hands.word opens).trans (.skips skips)).trans
        (.word closes))).build (by simp)
        fun _ => .indexEmpty opens skips closes
  | indexFull opens skips more _ skips' closes _ args =>
      exact (((args trivial).before ((Hands.word opens).trans (.skips skips))).after
        ((Hands.skips skips').trans (.word closes))).build (by simp)
        fun args => .indexFull opens skips more args skips' closes
  | _ => cases family

end Families

/-- Reading counts every leaf right, up to those of the parameters that are replaced, which are made
of names. -/
theorem settledNamed (x : Leaf) (reads : Derives fits rule s field s₁) :
    SettlesNamed fits x rule s field s₁ := by
  induction reads using of_parts with
  | @step rule _ _ _ _ parts =>
      cases family : rule.family with
      | statements => exact settles_statements parts family
      | assignments => exact settles_assignments parts family
      | junctions => exact settles_junctions parts family
      | operations => exact settles_operations parts family
      | messages => exact settles_messages parts family
      | operands => exact settles_operands parts family
      | blocks => exact settles_blocks parts family
      | clauses => exact settles_clauses parts family
      | parameters => exact settles_parameters parts family
      | lists => exact settles_lists parts family
      | arguments => exact settles_arguments parts family

/-- Reading counts every leaf right, up to those of the parameters that are replaced. -/
theorem settled (x : Leaf) (reads : Derives fits rule s field s₁) (plain : rule.Plain s) :
    Settled x fits s (field.leaves.count x - rule.held.count x) s₁
      (Derives (ParamList.Spares x) rule s field s₁) :=
  (reads.settledNamed x plain).mono And.left

end Derives

/-! ## Sources -/

namespace Tokens

variable {source : String} {tokens : Tokens} {token : Token}

/-- Each token of a source stands at a place of its own. -/
theorem nodup_pos (lexed : ofSource source = .ok tokens) :
    (tokens.body.map Token.pos).Nodup := by
  have ordered := (List.pairwise_append.1 (pairwise_before lexed)).1
  exact List.pairwise_map.2 (ordered.imp fun before => before.ne)

theorem sublist_pos (body : List Token) :
    ((body.flatMap Token.leaves).map Leaf.pos).Sublist (body.map Token.pos) := by
  induction body with
  | nil => exact .slnil
  | cons token rest ih =>
      rw [List.flatMap_cons, List.map_append, Token.leaves]
      split
      · exact ih.cons_cons _
      · exact ih.cons _

/-- A leaf is once among the tokens of its source. -/
theorem owed_start (lexed : ofSource source = .ok tokens) (mem : token ∈ tokens.body)
    (isLeaf : token.isLeaf = true) : (ParseState.start tokens).owed token.leaf = 1 := by
  have distinct : (tokens.body.flatMap Token.leaves).Nodup :=
    List.Nodup.of_map _ ((nodup_pos lexed).sublist (sublist_pos _))
  have once : token.leaf ∈ tokens.body.flatMap Token.leaves :=
    List.mem_flatMap.2 ⟨token, mem, by simp [Token.leaves, isLeaf]⟩
  simp only [ParseState.owed, ParseState.start, List.count_eq_one_of_mem distinct once]
  rfl

theorem tells_start (lexed : ofSource source = .ok tokens) (mem : token ∈ tokens.body)
    (isLeaf : token.isLeaf = true) : (ParseState.start tokens).Tells token.leaf := by
  refine ⟨close_of_source lexed, fun _ other mem' keyword same => ?_⟩
  obtain rfl := List.inj_on_of_nodup_map (nodup_pos lexed) mem' mem same
  simp [Token.isLeaf, keyword] at isLeaf

/-- Nothing is left of a source that is read to its end. -/
theorem owed_end {fits : ParamList → Node → Prop} {tree : Node} {s : ParseState}
    (lexed : ofSource source = .ok tokens)
    (reads : Derives fits .program (.start tokens) (.node tree) s) (x : Leaf) : s.owed x = 0 := by
  have suffix := reads.moves.ahead
  cases reads with
  | program _ eof =>
      obtain ⟨ahead, close, scopes, depth⟩ := s
      cases ahead with
      | nil => rfl
      | cons token rest =>
          exact absurd eof (kind_ne_eof lexed token (suffix.subset List.mem_cons_self))

end Tokens

/-- The texts of the leaves of a source, and how often each leaf is in the tree. -/
def leafCounts (source : String) : Option (List (String × Nat)) :=
  match Tokens.ofSource source with
  | .error _ => none
  | .ok tokens =>
      match tokens.parse with
      | .error _ => none
      | .ok tree =>
          some ((tokens.body.filter Token.isLeaf).map fun token =>
            (token.text, tree.leaves.count token.leaf))

theorem exists_of_leafCounts {source text : String} {count : Nat}
    (counted : (leafCounts source).any (·.contains (text, count)) = true) :
    ∃ tokens tree token, Tokens.ofSource source = .ok tokens ∧ tokens.parse = .ok tree ∧
      token ∈ tokens.body ∧ token.isLeaf = true ∧ token.text = text ∧
      tree.leaves.count token.leaf = count := by
  unfold leafCounts at counted
  split at counted
  · cases counted
  next tokens lexed =>
    split at counted
    · cases counted
    next tree parsed =>
      obtain ⟨token, mem, same⟩ := List.mem_map.1 (List.contains_iff_mem.1 counted)
      obtain ⟨mem, isLeaf⟩ := List.mem_filter.1 mem
      exact ⟨tokens, tree, token, lexed, parsed, mem, isLeaf, congrArg Prod.fst same,
        congrArg Prod.snd same⟩

/-- A tree has a leaf of its source at most once, and it has it exactly if it can be read with no
parameter put out that the leaf names. -/
theorem count_leaf_iff {source : String} {tokens : Tokens} {tree : Node}
    (lexed : Tokens.ofSource source = .ok tokens) (parsed : tokens.parse = .ok tree)
    {token : Token} (mem : token ∈ tokens.body) (isLeaf : token.isLeaf = true) :
    tree.leaves.count token.leaf ≤ 1 ∧
      (tree.leaves.count token.leaf = 1 ↔
        ∃ s, Derives (ParamList.Spares token.leaf) .program (.start tokens) (.node tree) s) := by
  have once := Tokens.owed_start lexed mem isLeaf
  have tells := Tokens.tells_start lexed mem isLeaf
  obtain ⟨s, reads⟩ := Reads.of_parse parsed
  obtain ⟨lost, hands, spares, -⟩ := reads.settled token.leaf trivial
  have balance := (hands tells).2
  rw [once, Tokens.owed_end lexed reads] at balance
  simp only [Field.leaves, Rule.held, List.count_nil] at balance
  refine ⟨by omega, fun all => ⟨s, spares (by omega)⟩, ?_⟩
  rintro ⟨s', strict⟩
  obtain ⟨lost', hands', -, keeps⟩ := strict.settled token.leaf trivial
  have balance' := (hands' tells).2
  rw [once, Tokens.owed_end lexed strict, keeps fun _ _ spares => spares] at balance'
  simp only [Field.leaves, Rule.held, List.count_nil] at balance'
  omega

theorem count_leaf_second_rest :
    let source := "foo \x7b |*a, *b| x \x7d"
    ∃ tokens tree token, Tokens.ofSource source = .ok tokens ∧
      tokens.parse = .ok tree ∧ token ∈ tokens.body ∧ token.isLeaf = true ∧ token.text = "b" ∧
      tree.leaves.count token.leaf = 1 ∧
      ∃ s, Derives (ParamList.Spares token.leaf) .program (.start tokens) (.node tree) s := by
  intro source
  obtain ⟨tokens, tree, token, lexed, parsed, mem, isLeaf, text, once⟩ := exists_of_leafCounts
    (show (leafCounts source).any (·.contains ("b", 1)) = true by
      decide +kernel)
  exact ⟨tokens, tree, token, lexed, parsed, mem, isLeaf, text, once,
    (count_leaf_iff lexed parsed mem isLeaf).2.1 once⟩

/-- The first of two rest parameters has no leaf in the tree. -/
theorem leafCounts_two_rests :
    leafCounts "foo \x7b |*a, *b| x \x7d" = some [("foo", 1), ("a", 0), ("b", 1), ("x", 1)] := by
  decide +kernel

end RubyFormat
