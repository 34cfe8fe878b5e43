import RubyFormat.Proofs.Texts

/-!
# The order of places

The tokens of a source stand in order, and a node takes its place from the first token of what it is
made of, or from the node that it starts with.  So every node of a tree stands at the place of a
token, and not behind any node right below it.  Reading is followed with a floor: a place that the
next token, and with it everything that is still to be read, does not stand before.
-/

namespace RubyFormat

namespace Pos

/-- Places are compared by their lines, and on one line by their columns. -/
instance : LE Pos where
  le pos later := pos.line < later.line ∨ pos.line = later.line ∧ pos.col ≤ later.col

variable {pos later last : Pos}

theorem le_refl (pos : Pos) : pos ≤ pos :=
  .inr ⟨rfl, Nat.le_refl _⟩

theorem le_trans (first : pos ≤ later) (second : later ≤ last) : pos ≤ last := by
  change pos.line < last.line ∨ pos.line = last.line ∧ pos.col ≤ last.col
  change pos.line < later.line ∨ pos.line = later.line ∧ pos.col ≤ later.col at first
  change later.line < last.line ∨ later.line = last.line ∧ later.col ≤ last.col at second
  omega

theorem Before.le (before : pos.Before later) : pos ≤ later :=
  before.imp_right (And.imp_right Nat.le_of_lt)

end Pos

namespace Node

/-- Every node of a tree stands at the place of a token, and not behind a node right below it. -/
def Ordered (tokens : List Token) (tree : Node) : Prop :=
  ∀ node ∈ tree.preorder, (∃ token ∈ tokens, node.pos = token.pos) ∧
    ∀ child ∈ node.children, node.pos ≤ child.pos

/-- An ordered tree that does not stand before a place. -/
structure Stands (tokens : List Token) (floor : Pos) (tree : Node) : Prop where
  low : floor ≤ tree.pos
  ordered : tree.Ordered tokens

variable {tokens : List Token} {floor pos : Pos} {node first : Node}

theorem ordered_iff :
    node.Ordered tokens ↔
      (∃ token ∈ tokens, node.pos = token.pos) ∧
        ∀ child ∈ node.children, child.Stands tokens node.pos := by
  unfold Ordered
  rw [preorder_eq, List.forall_mem_cons, and_assoc]
  refine and_congr_right fun _ => ?_
  constructor
  · rintro ⟨low, below⟩ child mem
    exact ⟨low child mem, fun inner inside => below inner (List.mem_flatMap.2 ⟨child, mem, inside⟩)⟩
  · intro stands
    refine ⟨fun child mem => (stands child mem).low, fun inner inside => ?_⟩
    obtain ⟨child, mem, inside⟩ := List.mem_flatMap.1 inside
    exact (stands child mem).ordered inner inside

namespace Stands

theorem placed (stands : node.Stands tokens floor) : ∃ token ∈ tokens, node.pos = token.pos :=
  (ordered_iff.1 stands.ordered).1

theorem below (stands : node.Stands tokens floor) :
    ∀ child ∈ node.children, child.Stands tokens node.pos :=
  (ordered_iff.1 stands.ordered).2

theorem lower (stands : node.Stands tokens pos) (low : floor ≤ pos) : node.Stands tokens floor :=
  ⟨Pos.le_trans low stands.low, stands.ordered⟩

/-- A tree does not stand before its own place. -/
theorem itself (stands : node.Stands tokens floor) : node.Stands tokens node.pos :=
  ⟨Pos.le_refl _, stands.ordered⟩

/-- A node at the place of the node that it starts with. -/
theorem leading (stands : first.Stands tokens floor) (same : node.pos = first.pos)
    (below : ∀ child ∈ node.children, child.Stands tokens first.pos) :
    node.Stands tokens floor := by
  rw [← same] at below
  refine ⟨same ▸ stands.low, ordered_iff.2 ⟨?_, below⟩⟩
  rw [same]
  exact stands.placed

theorem binary {left right : Node} {op : String} (stands : left.Stands tokens floor)
    (later : right.Stands tokens left.pos) :
    (Node.binary left.pos left op right).Stands tokens floor :=
  stands.leading rfl (forall_children_two rfl stands.itself later)

/-- A statement with a comment behind it. -/
theorem withComment {remark : Node} (stands : node.Stands tokens floor)
    (later : remark.Stands tokens node.pos) : (node.withComment remark).Stands tokens floor := by
  cases node with
  | call callPos receiver operator message arguments comments =>
      have below := stands.below
      refine stands.leading rfl ?_
      simp only [Node.withComment, children, fields, Field.toList, List.flatMap_cons,
        List.flatMap_nil, List.mem_append, List.mem_singleton] at below ⊢
      grind
  | _ =>
      exact stands.leading rfl (by
        simpa [Node.withComment, children, fields, Field.toList] using ⟨stands.itself, later⟩)

/-- Parameters with one more behind them. -/
theorem add {list : ParamList} {param : Node} (stands : (list.toNode pos).Stands tokens floor)
    (later : param.Stands tokens pos) : ((list.add param).toNode pos).Stands tokens floor :=
  stands.leading rfl (ParamList.forall_children_add stands.below later)

/-- The target made of an expression stands where the expression does. -/
theorem target {expr made : Node} {s s' : ParseState}
    (ran : (Parse.target expr).run s = .ok (made, s')) (stands : expr.Stands tokens floor) :
    made.Stands tokens floor := by
  refine stands.leading ?_ fun child mem => stands.below child (mem_children_of_target ran mem)
  obtain ⟨pos, kind, namePos, text, rfl, rfl⟩ | ⟨pos, inner, -, rfl, rfl⟩ |
    ⟨pos, receiver, operator, namePos, text, comments, rfl, rfl⟩ |
    ⟨pos, receiver, args, rfl, rfl⟩ | ⟨pos, parent, name, rfl, rfl⟩ := target_cases ran
  all_goals rfl

end Stands

/-- A hash without braces stands where the first of its entries does. -/
theorem stands_gatherEntries {parts : List Node}
    (ascending : parts.Pairwise fun part later => part.pos ≤ later.pos)
    (each : ∀ part ∈ parts, part.Stands tokens floor) :
    ∀ part ∈ gatherEntries parts, part.Stands tokens floor := by
  induction parts generalizing floor with
  | nil => exact each
  | cons part rest ih =>
      obtain ⟨behind, ascending⟩ := List.pairwise_cons.1 ascending
      obtain ⟨stands, others⟩ := List.forall_mem_cons.1 each
      -- what is gathered from the rest does not stand before the first part, either
      have gathered := ih ascending fun later mem => ⟨behind later mem, (others later mem).ordered⟩
      rw [gatherEntries]
      split
      next =>
        split
        next pos entries tail found =>
          rw [found] at gathered
          obtain ⟨hash, tail⟩ := List.forall_mem_cons.1 gathered
          refine List.forall_mem_cons.2 ⟨stands.leading rfl ?_,
            fun later mem => (tail later mem).lower stands.low⟩
          have inside := hash.below
          simp only [children, fields, Field.toList, List.flatMap_cons, List.flatMap_nil,
            List.append_nil] at inside ⊢
          exact List.forall_mem_cons.2
            ⟨stands.itself, fun entry mem => (inside entry mem).lower hash.low⟩
        next =>
          refine List.forall_mem_cons.2 ⟨stands.leading rfl ?_,
            fun later mem => (gathered later mem).lower stands.low⟩
          simpa [children, fields, Field.toList] using stands.itself
      next =>
        exact List.forall_mem_cons.2
          ⟨stands, fun later mem => (gathered later mem).lower stands.low⟩

end Node

/-! ## Reading in order -/

/-- The tokens that are left stand in order and are tokens of the list, and none of them stands
before the floor. -/
structure ParseState.Follows (tokens : List Token) (floor : Pos) (s : ParseState) : Prop where
  ascending : (s.ahead ++ [s.close]).Pairwise fun token later => token.pos ≤ later.pos
  mem : s.ahead ++ [s.close] ⊆ tokens
  low : floor ≤ s.current.pos

namespace ParseState

/-- The tokens that are left start with the next one. -/
theorem exists_current_cons (s : ParseState) :
    ∃ rest, s.ahead ++ [s.close] = s.current :: rest := by
  obtain ⟨ahead, close, scopes, depth⟩ := s
  cases ahead with
  | nil => exact ⟨[], rfl⟩
  | cons token rest => exact ⟨rest ++ [close], rfl⟩

theorem current_mem (s : ParseState) : s.current ∈ s.ahead ++ [s.close] := by
  obtain ⟨rest, left⟩ := s.exists_current_cons
  rw [left]
  exact List.mem_cons_self

namespace Follows

variable {tokens : List Token} {floor pos : Pos} {s s₁ : ParseState} {node : Node}

theorem le_of_mem (follows : s.Follows tokens floor) {token : Token}
    (mem : token ∈ s.ahead ++ [s.close]) : s.current.pos ≤ token.pos := by
  have ascending := follows.ascending
  obtain ⟨rest, left⟩ := s.exists_current_cons
  rw [left] at ascending mem
  rcases List.mem_cons.1 mem with rfl | later
  · exact Pos.le_refl _
  · exact (List.pairwise_cons.1 ascending).1 _ later

theorem moves (follows : s.Follows tokens floor) (moves : s.Moves s₁) :
    s₁.Follows tokens floor := by
  have part : s₁.ahead ++ [s₁.close] <:+ s.ahead ++ [s.close] := by
    obtain ⟨taken, left⟩ := moves.ahead
    exact ⟨taken, by rw [← List.append_assoc, left, moves.close]⟩
  exact {
    ascending := follows.ascending.sublist part.sublist
    mem := List.Subset.trans part.subset follows.mem
    low := Pos.le_trans follows.low (follows.le_of_mem (part.subset s₁.current_mem)) }

theorem next (follows : s.Follows tokens floor) : s.next.Follows tokens floor :=
  follows.moves (.next s)

theorem skips (follows : s.Follows tokens floor) (passed : s.Skips s₁) :
    s₁.Follows tokens floor :=
  follows.moves (.skips passed)

theorem declaring (follows : s.Follows tokens floor) (name : String) :
    (s.declaring name).Follows tokens floor :=
  follows.moves (.declaring name s)

theorem opened (follows : s.Follows tokens floor) : s.opened.Follows tokens floor :=
  { follows with }

theorem atDepth (follows : s.Follows tokens floor) (depth : Nat) :
    (s.atDepth depth).Follows tokens floor :=
  { follows with }

/-- The floor is raised to the next token. -/
theorem here (follows : s.Follows tokens floor) : s.Follows tokens s.current.pos :=
  { follows with low := Pos.le_refl _ }

/-- The floor is moved to a node that is read already. -/
theorem behind (follows : s.Follows tokens floor) (low : node.pos ≤ s.current.pos) :
    s.Follows tokens node.pos :=
  { follows with low := low }

/-- Nodes that are read already stay behind what is left. -/
theorem carries_moves (follows : s.Follows tokens floor) {nodes : List Node}
    (carries : ∀ node ∈ nodes, node.Stands tokens floor ∧ node.pos ≤ s.current.pos)
    (moves : s.Moves s₁) :
    ∀ node ∈ nodes, node.Stands tokens floor ∧ node.pos ≤ s₁.current.pos := by
  intro node mem
  obtain ⟨stands, low⟩ := carries node mem
  exact ⟨stands, ((follows.behind low).moves moves).low⟩

/-- A node at the place of the next token, over trees that do not stand before it. -/
theorem stands (follows : s.Follows tokens floor) (same : node.pos = s.current.pos)
    (below : ∀ child ∈ node.children, child.Stands tokens s.current.pos) :
    node.Stands tokens floor := by
  rw [← same] at below
  refine ⟨same ▸ follows.low, Node.ordered_iff.2 ⟨?_, below⟩⟩
  exact ⟨s.current, follows.mem s.current_mem, same⟩

/-- A node at the place of the next token, over one tree that does not stand before it. -/
theorem single (follows : s.Follows tokens floor) {child : Node} (same : node.pos = s.current.pos)
    (only : node.children = [child]) (below : child.Stands tokens s.current.pos) :
    node.Stands tokens floor :=
  follows.stands same (only ▸ List.forall_mem_singleton.2 below)

/-- A node without any below it, at the place of the next token. -/
theorem leaf (follows : s.Follows tokens floor) (same : node.pos = s.current.pos)
    (none : node.children = []) : node.Stands tokens floor :=
  follows.stands same (none ▸ List.forall_mem_nil _)

theorem name (follows : s.Follows tokens floor) (kind : NameKind) (text : String) :
    (Node.name kind s.current.pos text).Stands tokens floor :=
  follows.leaf rfl rfl

theorem leaf? (follows : s.Follows tokens floor) (found : s.current.leaf? = some node) :
    node.Stands tokens floor := by
  obtain ⟨kind, rfl⟩ | ⟨kind, rfl⟩ | ⟨kind, -, rfl⟩ := s.current.leaf?_cases found
  · exact follows.leaf rfl rfl
  all_goals
    refine follows.stands rfl ?_
    simpa [Node.children, Node.fields, Field.toList] using follows.here.name kind s.current.text

theorem callee? (follows : s.Follows tokens floor) (found : s.current.callee? = some node) :
    node.Stands tokens floor := by
  obtain ⟨kind, rfl⟩ := s.current.callee?_eq_name found
  exact follows.name kind _

theorem message? (follows : s.Follows tokens floor) (found : s.current.message? = some node) :
    node.Stands tokens floor := by
  obtain ⟨kind, rfl⟩ := s.current.message?_eq_name found
  exact follows.name kind _

theorem paramName? (follows : s.Follows tokens floor) :
    ∀ name ∈ s.paramName?.1, name.Stands tokens floor := by
  unfold ParseState.paramName?
  split
  next =>
    rintro name ⟨⟩
    exact follows.name _ _
  next => exact nofun

theorem ofValues (follows : s.Follows tokens floor) {values : List Node}
    (each : ∀ value ∈ values, value.Stands tokens s.current.pos) :
    (Node.ofValues s.current.pos values).Stands tokens floor := by
  unfold Node.ofValues
  split
  · exact follows.stands rfl (by simpa [Node.children, Node.fields, Field.toList] using each)
  · split
    · exact (each _ List.mem_cons_self).lower follows.low
    · exact follows.stands rfl (by simpa [Node.children, Node.fields, Field.toList] using each)

end Follows

end ParseState

namespace Derives

open Node RubyFormat.Field

variable {fits : ParamList → Node → Prop} {tokens : List Token} {floor : Pos} {rule : Rule}
  {s s₁ : ParseState} {field : Field Node}

/-- An argument stands at its first token. -/
theorem pos_of_argument {node : Node} (reads : Derives fits .argument s (.node node) s₁) :
    node.pos = s.current.pos := by
  cases reads with
  | argumentPlain _ _ value => exact value.pos_eq rfl _ rfl
  | _ => rfl

/-- What is behind a node does not stand before it. -/
theorem follows {node : Node} (reads : Derives fits rule s (.node node) s₁)
    (start : node.pos = s.current.pos) (follows : s.Follows tokens floor) :
    s₁.Follows tokens node.pos :=
  start ▸ follows.here.moves reads.moves

/-- A rule can go on with a node that was just read. -/
theorem carries_node {node : Node} (reads : Derives fits rule s (.node node) s₁)
    (start : node.pos = s.current.pos) (follows : s.Follows tokens floor)
    (stands : (Field.node node).All (Stands tokens floor)) :
    ∀ part ∈ [node], part.Stands tokens floor ∧ part.pos ≤ s₁.current.pos :=
  List.forall_mem_singleton.2 ⟨all_node.1 stands, (reads.follows start follows).low⟩

/-- Arguments are read in order. -/
theorem ascending_arguments {closer : Option String} {parts : List Node}
    (reads : Derives fits (.items .argument closer) s (.list parts) s₁)
    (follows : s.Follows tokens floor) :
    (∀ part ∈ parts, s.current.pos ≤ part.pos) ∧
      parts.Pairwise fun part later => part.pos ≤ later.pos := by
  generalize isItems : Rule.items .argument closer = rule at reads
  generalize isList : Field.list parts = field at reads
  induction reads generalizing parts floor with
  | itemsLast item | itemsClosed item =>
      cases isItems
      cases isList
      simp [item.pos_of_argument, Pos.le_refl]
  | itemsMore item _ skips _ _ _ ih =>
      cases isItems
      cases isList
      have later := (follows.here.moves item.moves).next.skips skips
      obtain ⟨low, ascending⟩ := ih later rfl rfl
      have start := item.pos_of_argument
      have rest := fun part mem => Pos.le_trans later.low (low part mem)
      exact ⟨List.forall_mem_cons.2 ⟨start ▸ Pos.le_refl _, rest⟩,
        List.pairwise_cons.2 ⟨start ▸ rest, ascending⟩⟩
  | _ => cases isItems

/-- What a rule reads is ordered and does not stand before a floor, if that holds of the nodes that
it goes on with and they do not stand behind the next token. -/
def StandsBehind (tokens : List Token) (rule : Rule) (s : ParseState) (field : Field Node)
    (_ : ParseState) : Prop :=
  ∀ {floor : Pos}, s.Follows tokens floor →
    (∀ node ∈ rule.carried, node.Stands tokens floor ∧ node.pos ≤ s.current.pos) →
      field.All (Stands tokens floor)

variable {reads : Derives fits rule s field s₁}

section Families

variable (parts : reads.Parts (StandsBehind tokens)) (follows : s.Follows tokens floor)
include parts follows

theorem stands_statements (family : rule.family = .statements) :
    field.All (Stands tokens floor) := by
  cases parts with
  | stmtsDone => exact List.forall_mem_nil _
  | stmt _ _ _ _ ih =>
      exact ih follows (List.forall_mem_nil _)
  | stmtsBreak _ _ _ _ ih => exact ih follows.next (List.forall_mem_nil _)
  | program _ _ _ ih =>
      have body := ih follows.here (List.forall_mem_nil _)
      exact all_node.2
        (follows.stands rfl (by simpa [children, fields, Field.toList] using body))
  | stmtsComment _ _ _ _ ih =>
      exact List.forall_mem_cons.2 ⟨follows.leaf rfl rfl, ih follows.next (List.forall_mem_nil _)⟩
  | stmtsRemark _ _ _ reads _ _ _ ih₁ _ ih₂ =>
      have stmt := all_node.1 (ih₁ follows (List.forall_mem_nil _))
      have later := reads.follows (reads.pos_eq rfl _ rfl) follows
      exact List.forall_mem_cons.2 ⟨stmt.withComment (later.leaf rfl rfl),
        ih₂ (follows.moves reads.moves).next (List.forall_mem_nil _)⟩
  | stmtsLast _ _ _ _ _ _ _ ih =>
      exact List.forall_mem_singleton.2 (all_node.1 (ih follows (List.forall_mem_nil _)))
  | stmtsMore _ _ _ reads _ _ _ _ _ ih₁ _ ih₂ =>
      have stmt := all_node.1 (ih₁ follows (List.forall_mem_nil _))
      exact List.forall_mem_cons.2 ⟨stmt, ih₂ (follows.moves reads.moves) (List.forall_mem_nil _)⟩
  | _ => cases family

theorem stands_assignments (family : rule.family = .assignments) :
    field.All (Stands tokens floor) := by
  cases parts with
  | unassigned _ _ _ _ ih | listedPlain _ _ _ ih =>
      exact ih follows (List.forall_mem_nil _)
  | assign reads _ made skips _ _ ih₁ _ ih₂ =>
      have left := (all_node.1 (ih₁ follows.here (List.forall_mem_nil _))).target made
      have later := (((follows.here.moves reads.moves).moves (.target made)).next).skips skips
      have right := all_node.1 (ih₂ later (by simp [Rule.carried_rightSide]))
      exact all_node.2 (follows.stands rfl (forall_children_two rfl left right))
  | opAssign reads _ _ made skips _ _ ih₁ _ ih₂ =>
      have left := (all_node.1 (ih₁ follows.here (List.forall_mem_nil _))).target made
      have later := (((follows.here.moves reads.moves).moves (.target made)).next).skips skips
      have right := all_node.1 (ih₂ later (List.forall_mem_nil _))
      exact all_node.2 (follows.stands rfl (forall_children_two rfl left right))
  | values _ _ ih => exact all_node.2 (follows.ofValues (ih follows.here (List.forall_mem_nil _)))
  | listedSplat _ _ _ ih =>
      exact all_node.2 (follows.single rfl rfl (all_node.1
        (ih follows.here.next (List.forall_mem_nil _))))
  | _ => cases family

theorem stands_junctions (family : rule.family = .junctions)
    (carries : ∀ node ∈ rule.carried, node.Stands tokens floor ∧ node.pos ≤ s.current.pos) :
    field.All (Stands tokens floor) := by
  cases parts with
  | joinedDone =>
      exact all_node.2 (List.forall_mem_singleton.1 carries).1
  | notNegated _ _ _ ih | notRange _ _ _ ih =>
      exact ih follows (List.forall_mem_nil _)
  | not _ _ _ ih =>
      exact all_node.2 (follows.single rfl rfl (all_node.1
        (ih follows.here.next (List.forall_mem_nil _))))
  | expression reads _ _ ih₁ _ ih₂ =>
      exact ih₂ (follows.moves reads.moves)
        (reads.carries_node (reads.pos_eq rfl _ rfl) follows (ih₁ follows (List.forall_mem_nil _)))
  | joinedMore _ skips reads _ _ ih₁ _ ih₂ =>
      obtain ⟨left, low⟩ := List.forall_mem_singleton.1 carries
      have later := (follows.behind low).next.skips skips
      have right := all_node.1 (ih₁ later (List.forall_mem_nil _))
      exact ih₂ ((follows.next.skips skips).moves reads.moves)
        (List.forall_mem_singleton.2 ⟨left.binary right, (later.moves reads.moves).low⟩)
  | rangeBetween reads _ _ _ ih₁ _ ih₂ =>
      have left := all_node.1 (ih₁ follows (List.forall_mem_nil _))
      have later := reads.follows (reads.pos_eq rfl _ rfl) follows
      exact all_node.2 (left.binary (all_node.1 (ih₂ later.next (List.forall_mem_nil _))))
  | _ => cases family

theorem stands_operations (family : rule.family = .operations)
    (carries : ∀ node ∈ rule.carried, node.Stands tokens floor ∧ node.pos ≤ s.current.pos) :
    field.All (Stands tokens floor) := by
  cases parts with
  | chainDone =>
      exact all_node.2 (List.forall_mem_singleton.1 carries).1
  | tightest _ _ ih | notMinus _ _ _ ih | notPower _ _ _ ih | notUnary _ _ _ ih =>
      exact ih follows (List.forall_mem_nil _)
  | minus _ _ _ ih | unary _ _ _ ih =>
      exact all_node.2 (follows.single rfl rfl (all_node.1
        (ih follows.here.next (List.forall_mem_nil _))))
  | level reads _ _ ih₁ _ ih₂ =>
      exact ih₂ (follows.moves reads.moves)
        (reads.carries_node (reads.pos_eq rfl _ rfl) follows (ih₁ follows (List.forall_mem_nil _)))
  | chainMore _ _ skips reads _ _ ih₁ _ ih₂ =>
      obtain ⟨left, low⟩ := List.forall_mem_singleton.1 carries
      have later := (follows.behind low).next.skips skips
      have right := all_node.1 (ih₁ later (List.forall_mem_nil _))
      exact ih₂ ((follows.next.skips skips).moves reads.moves)
        (List.forall_mem_singleton.2 ⟨left.binary right, (later.moves reads.moves).low⟩)
  | chainOnce _ _ skips _ _ ih =>
      obtain ⟨left, low⟩ := List.forall_mem_singleton.1 carries
      have right := all_node.1 (ih ((follows.behind low).next.skips skips) (List.forall_mem_nil _))
      exact all_node.2 (left.binary right)
  | power reads _ skips _ _ ih₁ _ ih₂ =>
      have left := all_node.1 (ih₁ follows (List.forall_mem_nil _))
      have later := reads.follows (reads.pos_eq rfl _ rfl) follows
      exact all_node.2 (left.binary (all_node.1
        (ih₂ (later.next.skips skips) (List.forall_mem_nil _))))
  | _ => cases family

theorem stands_messages (family : rule.family = .messages)
    (carries : ∀ node ∈ rule.carried, node.Stands tokens floor ∧ node.pos ≤ s.current.pos) :
    field.All (Stands tokens floor) := by
  cases parts with
  | suffixesDone =>
      exact all_node.2 (List.forall_mem_singleton.1 carries).1
  | operand reads _ _ ih₁ _ ih₂ =>
      exact ih₂ (follows.moves reads.moves)
        (reads.carries_node (reads.pos_eq rfl _ rfl) follows (ih₁ follows (List.forall_mem_nil _)))
  | suffixesCall _ reads _ _ ih₁ _ ih₂ =>
      obtain ⟨expr, low⟩ := List.forall_mem_singleton.1 carries
      have later := (follows.behind low).moves (.continued _)
      have call := all_node.1 (ih₁ (follows.moves (.continued _))
        (List.forall_mem_singleton.2 ⟨expr, later.low⟩))
      have start := reads.pos_eq rfl _ rfl
      exact ih₂ ((follows.moves (.continued _)).moves reads.moves)
        (List.forall_mem_singleton.2 ⟨call, start ▸ (later.moves reads.moves).low⟩)
  | suffixesIndex _ reads _ _ ih₁ _ ih₂ =>
      obtain ⟨receiver, low⟩ := List.forall_mem_singleton.1 carries
      have later := follows.behind low
      have args := all_optional.1 (ih₁ later (List.forall_mem_nil _))
      refine ih₂ (follows.moves reads.moves) (List.forall_mem_singleton.2
        ⟨receiver.leading rfl ?_, (later.moves reads.moves).low⟩)
      simpa [children, fields, Field.toList, or_imp, forall_and] using ⟨receiver.itself, args⟩
  | callShorthand skips _ reads _ _ ih₁ _ ih₂ =>
      obtain ⟨receiver, low⟩ := List.forall_mem_singleton.1 carries
      have later := (follows.behind low).next.skips skips
      have message : (Node.callShorthand _).Stands tokens _ := later.leaf rfl rfl
      have args := all_node.1 (ih₁ later (List.forall_mem_nil _))
      refine ih₂ ((follows.next.skips skips).moves reads.moves) (List.forall_mem_singleton.2
        ⟨receiver.leading rfl ?_, (later.moves reads.moves).low⟩)
      simpa [children, fields, Field.toList] using ⟨receiver.itself, message, args⟩
  | constPath skips found =>
      obtain ⟨receiver, low⟩ := List.forall_mem_singleton.1 carries
      have name := ((follows.behind low).next.skips skips).message? found
      exact all_node.2 (receiver.leading rfl (forall_children_two rfl receiver.itself name))
  | callBare skips found _ _ _ _ ih =>
      obtain ⟨receiver, low⟩ := List.forall_mem_singleton.1 carries
      have later := (follows.behind low).next.skips skips
      have name := later.message? found
      refine ih (follows.next.skips skips).next (List.forall_mem_singleton.2
        ⟨receiver.leading rfl ?_, later.next.low⟩)
      simpa [children, fields, Field.toList] using ⟨receiver.itself, name⟩
  | callArgs skips found _ reads _ _ ih₁ _ ih₂ =>
      obtain ⟨receiver, low⟩ := List.forall_mem_singleton.1 carries
      have later := (follows.behind low).next.skips skips
      have name := later.message? found
      have args := all_node.1 (ih₁ later.next (List.forall_mem_nil _))
      refine ih₂ ((follows.next.skips skips).next.moves reads.moves) (List.forall_mem_singleton.2
        ⟨receiver.leading rfl ?_, (later.next.moves reads.moves).low⟩)
      simpa [children, fields, Field.toList] using ⟨receiver.itself, name, args⟩
  | _ => cases family

theorem stands_operands (family : rule.family = .operands) : field.All (Stands tokens floor) := by
  cases parts with
  | leaf found => exact all_node.2 (follows.leaf? found)
  | constant | localVar | vcall =>
      exact all_node.2 (follows.stands rfl (forall_children_one rfl (follows.here.name _ _)))
  | fcall found _ reads _ _ ih₁ _ ih₂ =>
      have callee := follows.here.callee? found
      have args := all_node.1 (ih₁ follows.here.next (List.forall_mem_nil _))
      refine ih₂ (follows.next.moves reads.moves) (List.forall_mem_singleton.2
        ⟨follows.stands rfl ?_, (follows.here.next.moves reads.moves).low⟩)
      simpa [children, fields, Field.toList] using ⟨callee, args⟩
  | command _ _ _ _ reads _ _ ih₁ _ ih₂ =>
      have name := follows.here.name .ident
      have args := all_node.1 (ih₁ (follows.here.next.atDepth _) (List.forall_mem_nil _))
      have moved := ParseState.Moves.outOfCommand reads.moves
      refine ih₂ (follows.next.moves moved) (List.forall_mem_singleton.2
        ⟨follows.stands rfl ?_, (follows.here.next.moves moved).low⟩)
      simpa [children, fields, Field.toList] using ⟨name _, args⟩
  | fcallBlock _ _ _ _ _ _ _ ih =>
      refine ih follows.next (List.forall_mem_singleton.2
        ⟨follows.stands rfl ?_, follows.here.next.low⟩)
      simpa [children, fields, Field.toList] using follows.here.name _ _
  | paren _ skips _ _ _ _ ih =>
      exact all_node.2
        (follows.single rfl rfl (all_node.1 (ih (follows.here.next.skips skips)
        (List.forall_mem_nil _))))
  | array _ skips _ _ _ ih | hash _ skips _ _ _ ih =>
      have elements := ih ((follows.here.next.atDepth 0).skips skips) (List.forall_mem_nil _)
      exact all_node.2
        (follows.stands rfl (by simpa [children, fields, Field.toList] using elements))
  | lambda _ reads _ _ ih₁ _ ih₂ =>
      have inner := follows.here.next.opened
      have params := all_optional.1 (ih₁ inner (List.forall_mem_nil _))
      have body := ih₂ (inner.moves reads.moves) (List.forall_mem_nil _)
      refine all_node.2 (follows.stands rfl ?_)
      simpa [children, fields, Field.toList, or_imp, forall_and] using ⟨params, body⟩
  | _ => cases family

theorem stands_blocks (family : rule.family = .blocks)
    (carries : ∀ node ∈ rule.carried, node.Stands tokens floor ∧ node.pos ≤ s.current.pos) :
    field.All (Stands tokens floor) := by
  cases parts with
  | blockVarNone | lambdaNone => exact List.forall_mem_nil _
  | blockNone =>
      exact all_node.2 (List.forall_mem_singleton.1 carries).1
  | blockBraces _ _ _ ih | blockDo _ _ _ ih =>
      obtain ⟨call, low⟩ := List.forall_mem_singleton.1 carries
      have block := all_node.1 (ih (follows.behind low) (List.forall_mem_nil _))
      exact all_node.2 (call.leading rfl (forall_children_two rfl call.itself block))
  | braceBlock _ skips reads _ _ _ ih₁ _ ih₂ =>
      have inner := (follows.here.next.atDepth 0).opened.skips skips
      have params := all_optional.1 (ih₁ inner (List.forall_mem_nil _))
      have body := ih₂ (inner.moves reads.moves) (List.forall_mem_nil _)
      refine all_node.2 (follows.stands rfl ?_)
      simpa [children, fields, Field.toList, or_imp, forall_and] using ⟨params, body⟩
  | doBlock _ reads _ _ _ ih₁ _ ih₂ =>
      have inner := (follows.here.next.atDepth 0).opened
      have params := all_optional.1 (ih₁ inner (List.forall_mem_nil _))
      have body := all_node.1 (ih₂ (inner.moves reads.moves) (List.forall_mem_nil _))
      refine all_node.2 (follows.stands rfl ?_)
      simpa [children, fields, Field.toList, or_imp, forall_and] using ⟨params, body⟩
  | blockVarBars => exact all_node.2 (follows.leaf rfl rfl)
  | blockVarSome _ _ _ _ ih =>
      exact all_node.2 (follows.single rfl rfl (all_node.1
        (ih follows.here.next (List.forall_mem_nil _))))
  | lambdaParen _ _ _ _ ih | lambdaBraces _ _ _ _ ih | lambdaDo _ _ _ _ ih =>
      exact ih follows.next (List.forall_mem_nil _)
  | lambdaBare _ _ _ _ ih => exact ih follows (List.forall_mem_nil _)
  | _ => cases family

theorem stands_clauses (family : rule.family = .clauses) : field.All (Stands tokens floor) := by
  cases parts with
  | exceptionsNone | rescueNone | holderNone | clauseNone => exact List.forall_mem_nil _
  | exceptionsSome _ _ _ ih =>
      exact ih follows (List.forall_mem_nil _)
  | bodyStmt reads₁ reads₂ reads₃ _ _ ih₁ _ ih₂ _ ih₃ _ ih₄ =>
      have later₁ := follows.here.moves reads₁.moves
      have later₂ := later₁.moves reads₂.moves
      refine all_node.2 (follows.stands rfl (forall_children ?_))
      simp only [fields, List.forall_mem_cons]
      exact ⟨ih₁ follows.here (List.forall_mem_nil _), ih₂ later₁ (List.forall_mem_nil _), ih₃
        later₂ (List.forall_mem_nil _),
        ih₄ (later₂.moves reads₃.moves) (List.forall_mem_nil _), List.forall_mem_nil _⟩
  | rescueMore _ reads₁ reads₂ reads₃ _ _ ih₁ _ ih₂ _ ih₃ _ ih₄ =>
      have later₁ := follows.here.next.moves reads₁.moves
      have later₂ := (later₁.moves reads₂.moves).moves (.pastThen _)
      refine all_node.2 (follows.stands rfl (forall_children ?_))
      simp only [fields, List.forall_mem_cons]
      exact ⟨ih₁ follows.here.next (List.forall_mem_nil _), ih₂ later₁ (List.forall_mem_nil _), ih₃
        later₂ (List.forall_mem_nil _),
        ih₄ (later₂.moves reads₃.moves) (List.forall_mem_nil _), List.forall_mem_nil _⟩
  | holderSome _ _ made _ ih =>
      exact all_node.2 ((all_node.1 (ih follows.next (List.forall_mem_nil _))).target made)
  | clauseSome _ _ _ ih => exact ih follows.next (List.forall_mem_nil _)
  | _ => cases family

theorem stands_parameters (family : rule.family = .parameters)
    (carries : ∀ node ∈ rule.carried, node.Stands tokens floor ∧ node.pos ≤ s.current.pos) :
    field.All (Stands tokens floor) := by
  cases parts with
  | paramsDone =>
      exact all_node.2 (List.forall_mem_singleton.1 carries).1
  | params skips _ _ ih =>
      exact ih (follows.skips skips) (List.forall_mem_singleton.2
        ⟨follows.leaf rfl rfl, (follows.here.skips skips).low⟩)
  | paramsLast _ _ _ _ _ _ ih =>
      obtain ⟨list, low⟩ := List.forall_mem_singleton.1 carries
      exact all_node.2 (list.add (all_node.1 (ih (follows.behind low) (List.forall_mem_nil _))))
  | paramsExcess _ reads _ skips _ _ _ _ _ _ ih =>
      obtain ⟨list, low⟩ := List.forall_mem_singleton.1 carries
      have added := list.add (all_node.1 (ih (follows.behind low) (List.forall_mem_nil _)))
      have comma := ((follows.behind low).moves reads.moves).skips skips
      exact all_node.2 (added.leading rfl
        (ParamList.forall_children_rest added.below (comma.leaf rfl rfl)))
  | paramsMore _ reads _ skips _ skips' _ _ _ ih₁ _ ih₂ =>
      obtain ⟨list, low⟩ := List.forall_mem_singleton.1 carries
      have moved := ((reads.moves.trans (.skips skips)).trans (.next _)).trans (.skips skips')
      have added := list.add (all_node.1 (ih₁ (follows.behind low) (List.forall_mem_nil _)))
      exact ih₂ (follows.moves moved)
        (List.forall_mem_singleton.2 ⟨added, ((follows.behind low).moves moved).low⟩)
  | restParam | keywordRestParam =>
      refine all_node.2 (follows.stands rfl ?_)
      simpa [children, fields, Field.toList] using follows.here.next.paramName?
  | blockParam =>
      refine all_node.2 (follows.stands rfl ?_)
      simpa [children, fields, Field.toList] using follows.here.next.name _ _
  | keywordParam =>
      exact all_node.2 (follows.stands rfl (forall_children_one rfl (follows.here.name _ _)))
  | keywordDefault _ same _ _ _ ih =>
      have label := follows.here.name .label
      have default := all_node.1 (ih (same ▸ follows.here.next.declaring _) (List.forall_mem_nil _))
      exact all_node.2 (follows.stands rfl (forall_children_two rfl (label _) default))
  | optionalParam _ same _ _ _ ih =>
      have name := follows.here.name .ident
      have default := all_node.1 (ih (same ▸ follows.here.next.declaring _).next
        (List.forall_mem_nil _))
      exact all_node.2 (follows.stands rfl (forall_children_two rfl (name _) default))
  | nameParam => exact all_node.2 (follows.name _ _)
  | _ => cases family

theorem stands_lists (family : rule.family = .lists)
    (carries : ∀ node ∈ rule.carried, node.Stands tokens floor ∧ node.pos ≤ s.current.pos) :
    field.All (Stands tokens floor) := by
  cases parts with
  | entriesDone => exact List.forall_mem_nil _
  | elementPlain _ _ _ ih =>
      exact ih follows (List.forall_mem_nil _)
  | elementSplat _ _ _ ih | entrySplat _ _ _ ih =>
      exact all_node.2 (follows.single rfl rfl (all_node.1
        (ih follows.here.next (List.forall_mem_nil _))))
  | entryArrow _ _ reads skips _ skips' _ _ ih₁ _ ih₂ =>
      have key := all_node.1 (ih₁ follows.here (List.forall_mem_nil _))
      have later := ((follows.here.moves reads.moves).skips skips).next.skips skips'
      have value := all_node.1 (ih₂ later (List.forall_mem_nil _))
      exact all_node.2 (follows.stands rfl (forall_children_two rfl key value))
  | itemsLast _ _ _ ih | itemsClosed _ _ _ _ _ ih | entriesLast _ _ _ _ _ ih =>
      exact List.forall_mem_singleton.2 (all_node.1 (ih follows carries))
  | itemsMore reads _ skips _ _ _ ih₁ _ ih₂ =>
      have moved := (reads.moves.trans (.next _)).trans (.skips skips)
      exact List.forall_mem_cons.2 ⟨all_node.1 (ih₁ follows carries),
        ih₂ (follows.moves moved) (follows.carries_moves carries moved)⟩
  | entriesMore _ reads skips _ skips' _ _ ih₁ _ ih₂ =>
      have moved := ((reads.moves.trans (.skips skips)).trans (.next _)).trans (.skips skips')
      exact List.forall_mem_cons.2 ⟨all_node.1 (ih₁ follows carries),
        ih₂ (follows.moves moved) (follows.carries_moves carries moved)⟩
  | entryLabel _ skips _ _ ih =>
      have label := follows.here.name .label
      have value := all_node.1 (ih (follows.here.next.skips skips) (List.forall_mem_nil _))
      exact all_node.2 (follows.stands rfl (forall_children_two rfl (label _) value))
  | _ => cases family

theorem stands_arguments (family : rule.family = .arguments) : field.All (Stands tokens floor) := by
  cases parts with
  | indexEmpty => exact List.forall_mem_nil _
  | argumentPlain _ _ _ _ _ ih =>
      exact ih follows (List.forall_mem_nil _)
  | argumentSplat _ _ _ ih | argumentDoubleSplat _ _ _ ih | argumentBlock _ _ _ _ ih =>
      exact all_node.2 (follows.single rfl rfl (all_node.1
        (ih follows.here.next (List.forall_mem_nil _))))
  | argumentArrow _ _ reads _ skips _ _ ih₁ _ ih₂ =>
      have key := all_node.1 (ih₁ follows.here (List.forall_mem_nil _))
      have later := (follows.here.moves reads.moves).next.skips skips
      have value := all_node.1 (ih₂ later (List.forall_mem_nil _))
      exact all_node.2 (follows.stands rfl (forall_children_two rfl key value))
  | argumentLabel _ skips _ _ ih =>
      have label := follows.here.name .label
      have value := all_node.1 (ih (follows.here.next.skips skips) (List.forall_mem_nil _))
      exact all_node.2 (follows.stands rfl (forall_children_two rfl (label _) value))
  | arguments reads _ ih =>
      have parts := stands_gatherEntries (reads.ascending_arguments follows).2
        (ih follows.here (List.forall_mem_nil _))
      exact all_node.2
        (follows.stands rfl (by simpa [children, fields, Field.toList] using parts))
  | argumentBlockLone | parenEmpty => exact all_node.2 (follows.leaf rfl rfl)
  | parenFull _ skips _ _ _ _ _ ih =>
      have args := all_node.1 (ih ((follows.here.next.atDepth 0).skips skips)
        (List.forall_mem_nil _))
      exact all_node.2 (follows.single rfl rfl args)
  | indexFull _ skips _ _ _ _ _ ih => exact ih (follows.next.skips skips) (List.forall_mem_nil _)
  | _ => cases family

end Families

/-- What a rule reads is ordered and does not stand before the floor, if that holds of the nodes
that it goes on with and they do not stand behind the next token. -/
theorem stands (reads : Derives fits rule s field s₁) (follows : s.Follows tokens floor)
    (carries : ∀ node ∈ rule.carried, node.Stands tokens floor ∧ node.pos ≤ s.current.pos) :
    field.All (Stands tokens floor) := by
  induction reads using of_parts generalizing floor with
  | @step rule _ _ _ _ parts =>
      cases family : rule.family with
      | statements => exact stands_statements parts follows family
      | assignments => exact stands_assignments parts follows family
      | junctions => exact stands_junctions parts follows family carries
      | operations => exact stands_operations parts follows family carries
      | messages => exact stands_messages parts follows family carries
      | operands => exact stands_operands parts follows family
      | blocks => exact stands_blocks parts follows family carries
      | clauses => exact stands_clauses parts follows family
      | parameters => exact stands_parameters parts follows family carries
      | lists => exact stands_lists parts follows family carries
      | arguments => exact stands_arguments parts follows family

end Derives

/-- Before anything is read, all tokens are left, in the order in which they stand. -/
theorem Tokens.follows_start {source : String} {tokens : Tokens}
    (lexed : Tokens.ofSource source = .ok tokens) :
    (ParseState.start tokens).Follows tokens.toList (ParseState.start tokens).current.pos where
  ascending := (pairwise_before lexed).imp Pos.Before.le
  mem := List.Subset.refl _
  low := Pos.le_refl _

/--
Every node of the tree of a source stands at the line and the column of one of the tokens, and no
node right below it stands on an earlier line, or on the same line in an earlier column.
-/
theorem Node.ordered_of_source {source : String} {tree : Node}
    (parsed : Node.ofSource source = .ok tree) :
    ∃ tokens, Tokens.ofSource source = .ok tokens ∧
      ∀ node ∈ tree.preorder, (∃ token ∈ tokens.toList, node.pos = token.pos) ∧
        ∀ child ∈ node.children, node.pos ≤ child.pos := by
  obtain ⟨tokens, lexed, ran⟩ := tokens_of_source parsed
  obtain ⟨s, reads⟩ := Reads.of_parse ran
  have stands := reads.stands (Tokens.follows_start lexed) (List.forall_mem_nil _)
  exact ⟨tokens, lexed, (Field.all_node.1 stands).ordered⟩

/-- Nodes at the place of the part that they start with, parts on later lines, and tokens behind a
regular expression with a line break in it. -/
theorem Node.ordered_of_source_mixed :
    let source :=
      "\nx.y = *f, 1 # r\ng h: 1 do |k,|\n  m\n    .()\nrescue N => e\nend\n[/a\\\nb/][0]"
    let kinds : List Kind := [.commented, .splatValueList, .bareAssocHash, .methodAddBlock,
      .excessedComma, .callShorthand, .rescue, .aref]
    ∃ tree tokens, Node.ofSource source = .ok tree ∧ tree.hasKinds kinds = true ∧
      Tokens.ofSource source = .ok tokens ∧
      ∀ node ∈ tree.preorder, (∃ token ∈ tokens.toList, node.pos = token.pos) ∧
        ∀ child ∈ node.children, node.pos ≤ child.pos := by
  intro source kinds
  obtain ⟨tree, parsed, mixed⟩ := exists_of_source
    (show (Node.ofSource source).toOption.any (hasKinds kinds) = true by decide +kernel)
  obtain ⟨tokens, lexed, ordered⟩ := ordered_of_source parsed
  exact ⟨tree, tokens, parsed, mixed, lexed, ordered⟩

end RubyFormat
