import RubyFormat.Proofs.Forms
import RubyFormat.Proofs.Leaves
import RubyFormat.Proofs.Reread

/-!
# Local variables are scoped lexically

Whether a bare name is a local variable or a call is decided while a source is read, from a stack of
scopes.  The tree that is read tells the same story: a program, a block and a lambda are scopes,
targets and parameters bind names in the innermost scope around them, and a name is a variable
exactly where a scope around it binds the name further in front.
-/

namespace RubyFormat

namespace Node

/-! ## Scopes of a tree -/

/-- Whether a node opens a scope of local variables. -/
def isScope : Node → Bool
  | .program _ _ | .braceBlock _ _ _ | .doBlock _ _ _ | .lambda _ _ _ => true
  | _ => false

/-- The text and the place of a name. -/
def named? : Node → Option (String × Pos)
  | .name _ pos text => some (text, pos)
  | _ => none

/-- The names that a node itself binds, each with its place. -/
def binds : Node → List (String × Pos)
  | .varField pos (some (.name .ident _ text)) | .optionalParam pos (.name _ _ text) _
  | .restParam pos (some (.name _ _ text)) | .keywordRestParam pos (some (.name _ _ text))
  | .blockParam pos (.name _ _ text) => [(text, pos)]
  | .keywordParam pos (.name _ _ label) _ => [(String.ofList label.toList.dropLast, pos)]
  | .params _ required _ _ post _ _ _ => (required ++ post).filterMap named?
  | _ => []

/-- The names that a tree binds in the scope around it. -/
def bindings : Node → List (String × Pos) :=
  fold fun node fields =>
    if node.isScope then [] else node.binds ++ fields.flatMap fun field => field.2.toList.flatten

/-- A scope binds a name before a place. -/
def BindsBefore (scope : Node) (name : String) (pos : Pos) : Prop :=
  ∃ place, (name, place) ∈ scope.children.flatMap bindings ∧ place.Before pos

/-- The local variable that a node reads. -/
def localName? : Node → Option String
  | .varRef _ (.name .ident _ text) => some text
  | _ => none

/-- The name that a node calls with neither a receiver nor parentheses. -/
def calledName? : Node → Option String
  | .vcall _ (.name .ident _ text) | .command _ (.name .ident _ text) _
  | .fcall _ (.name .ident _ text) none => some text
  | _ => none

/-- The scopes inside of a node, the innermost first. -/
def enclosing (node : Node) (scopes : List Node) : List Node :=
  if node.isScope then node :: scopes else scopes

/-- A node stands in a tree within the scopes, the innermost first. -/
inductive Within (tree : Node) : List Node → Node → Prop
  | root : Within tree [] tree
  | child {scopes : List Node} {node child : Node} :
      Within tree scopes node → child ∈ node.children → Within tree (node.enclosing scopes) child

/-! ## Names that resolve -/

/-- The places at which a node itself binds, reads or calls a name. -/
def ownSpots (node : Node) : List Pos :=
  node.binds.map Prod.snd ++
    if node.localName?.isSome || node.calledName?.isSome then [node.pos] else []

/-- The places at which a tree binds, reads or calls a name. -/
def spots (tree : Node) : List Pos :=
  tree.preorder.flatMap ownSpots

theorem bindings_of_scope {node : Node} (isScope : node.isScope = true) : node.bindings = [] := by
  unfold bindings
  rw [fold_eq, if_pos isScope]

theorem bindings_eq {node : Node} (noScope : node.isScope = false) :
    node.bindings = node.binds ++ node.children.flatMap bindings := by
  unfold bindings
  rw [fold_eq, if_neg (by simp [noScope])]
  simp only [children, List.flatMap_assoc, List.flatMap_map, Field.toList_map, ← List.flatMap_def]

theorem spots_eq (node : Node) : node.spots = node.ownSpots ++ node.children.flatMap spots := by
  unfold spots
  rw [preorder_eq, List.flatMap_cons, List.flatMap_assoc]

/-- What is visible inside of a node, where some names are visible around it. -/
def visibleInside (node : Node) (visible : String → Pos → Prop) (name : String) (pos : Pos) :
    Prop :=
  visible name pos ∨ node.isScope = true ∧ node.BindsBefore name pos

/-- All variables that a tree reads are visible where they are read, and no name it calls is. -/
inductive Resolves : (String → Pos → Prop) → Node → Prop
  | intro {visible : String → Pos → Prop} {node : Node} :
      (∀ name, node.localName? = some name → visible name node.pos) →
      (∀ name, node.calledName? = some name → ¬visible name node.pos) →
      (∀ child ∈ node.children, Resolves (node.visibleInside visible) child) →
      Resolves visible node

/-- A node that neither reads a variable nor calls a name resolves if those right below do. -/
theorem Resolves.of_below {visible : String → Pos → Prop} {node : Node}
    (noLocal : node.localName? = none) (noCall : node.calledName? = none)
    (below : ∀ child ∈ node.children, child.Resolves (node.visibleInside visible)) :
    node.Resolves visible := by
  refine .intro (fun name isLocal => ?_) (fun name isCalled => ?_) below
  · rw [noLocal] at isLocal
    cases isLocal
  · rw [noCall] at isCalled
    cases isCalled

theorem mem_ownSpots_pos {node : Node}
    (names : node.localName?.isSome = true ∨ node.calledName?.isSome = true) :
    node.pos ∈ node.spots := by
  rw [spots_eq, ownSpots, if_pos (by simpa using names)]
  simp

/-- Names resolve alike if the same ones are visible wherever the tree has one. -/
theorem Resolves.congr {visible other : String → Pos → Prop} {node : Node}
    (resolves : node.Resolves visible)
    (same : ∀ name, ∀ pos ∈ node.spots, visible name pos ↔ other name pos) :
    node.Resolves other := by
  induction resolves generalizing other with
  | @intro visible node reads calls below ih =>
    refine .intro (fun name reads? => ?_) (fun name calls? => ?_) fun child mem => ?_
    · exact (same name _ (mem_ownSpots_pos (.inl (by simp [reads?])))).1 (reads name reads?)
    · have here := same name _ (mem_ownSpots_pos (.inr (by simp [calls?])))
      exact fun seen => calls name calls? (here.2 seen)
    · refine ih child mem fun name pos inside => or_congr_left (same name pos ?_)
      rw [spots_eq]
      exact List.mem_append_right _ (List.mem_flatMap.2 ⟨child, mem, inside⟩)

/-- What resolves in a tree resolves within the scopes around it. -/
theorem Resolves.within {visible : String → Pos → Prop} {tree node : Node} {scopes : List Node}
    (resolves : tree.Resolves visible) (within : tree.Within scopes node) :
    node.Resolves fun name pos =>
      visible name pos ∨ ∃ scope ∈ scopes, scope.BindsBefore name pos := by
  induction within with
  | root => simpa using resolves
  | @child scopes node child _ mem ih =>
    cases ih with
    | intro _ _ below =>
      refine (below child mem).congr fun name pos _ => ?_
      unfold visibleInside enclosing
      cases node.isScope with
      | false => simp
      | true =>
          simp only [true_and, if_true, List.exists_mem_cons_iff]
          exact or_assoc.trans (or_congr_right or_comm)

/-- The place of a binder is one of the spots. -/
theorem mem_spots_of_binding {tree : Node} {name : String} {place : Pos}
    (bound : (name, place) ∈ tree.bindings) : place ∈ tree.spots := by
  induction tree using induction_children with
  | step tree ih =>
    cases isScope : tree.isScope with
    | true =>
        rw [bindings_of_scope isScope] at bound
        cases bound
    | false =>
        rw [bindings_eq isScope] at bound
        rw [spots_eq]
        obtain own | below := List.mem_append.1 bound
        · exact List.mem_append_left _ (List.mem_append_left _ (List.mem_map.2 ⟨_, own, rfl⟩))
        · obtain ⟨child, mem, inside⟩ := List.mem_flatMap.1 below
          exact List.mem_append_right _ (List.mem_flatMap.2 ⟨child, mem, ih child mem inside⟩)

end Node

namespace ParseState

variable {s s₁ s₂ : ParseState} {trees others : List Node}

/-! ## Reading binds names -/

/-- The tokens ahead stand in order before the end mark, and a scope is open. -/
structure Sorted (s : ParseState) : Prop where
  ordered : (s.ahead ++ [s.close]).Pairwise fun token later => token.pos.Before later.pos
  close : s.close.kind = .eof
  scopes : s.scopes ≠ []

/-- A name is visible at a place if it is a variable already or trees bind it before the place. -/
def Sees (s : ParseState) (trees : List Node) (name : String) (pos : Pos) : Prop :=
  s.isLocal name = true ∨
    ∃ place, (name, place) ∈ trees.flatMap Node.bindings ∧ place.Before pos

/-- Trees are read between two states, and the names that they bind become variables. -/
structure Binds (s : ParseState) (trees : List Node) (s₁ : ParseState) : Prop where
  sorted : s₁.Sorted
  outer : s₁.scopes.tail = s.scopes.tail
  forward : ¬s₁.current.pos.Before s.current.pos
  locals : ∀ name, s₁.isLocal name = true ↔
    s.isLocal name = true ∨ ∃ place, (name, place) ∈ trees.flatMap Node.bindings
  spots : ∀ pos ∈ trees.flatMap Node.spots,
    ¬pos.Before s.current.pos ∧ pos.Before s₁.current.pos
  resolves : ∀ tree ∈ trees, tree.Resolves (s.Sees trees)

/-- Reading trees from a state with its tokens in order binds their names. -/
def Scoped (s : ParseState) (trees : List Node) (s₁ : ParseState) : Prop :=
  s.Sorted → s.Binds trees s₁

theorem mem_spots_of_bindings {name : String} {place : Pos}
    (bound : (name, place) ∈ trees.flatMap Node.bindings) : place ∈ trees.flatMap Node.spots := by
  obtain ⟨tree, mem, inside⟩ := List.mem_flatMap.1 bound
  exact List.mem_flatMap.2 ⟨tree, mem, Node.mem_spots_of_binding inside⟩

namespace Scoped

/-- What is read later is invisible before, and what is read before is visible later. -/
theorem trans (first : s.Scoped trees s₁) (second : s₁.Scoped others s₂) :
    s.Scoped (trees ++ others) s₂ := by
  intro sorted
  have front := first sorted
  have back := second front.sorted
  have forward := front.forward
  have forward' := back.forward
  unfold Pos.Before at forward forward'
  refine ⟨back.sorted, back.outer.trans front.outer, ?_, fun name => ?_, fun pos mem => ?_,
    fun tree mem => ?_⟩
  · unfold Pos.Before
    omega
  · rw [back.locals, front.locals, or_assoc, List.flatMap_append]
    simp only [List.mem_append, exists_or]
  · rw [List.flatMap_append] at mem
    obtain mem | mem := List.mem_append.1 mem
    · have within := front.spots pos mem
      unfold Pos.Before at within ⊢
      omega
    · have within := back.spots pos mem
      unfold Pos.Before at within ⊢
      omega
  · obtain mem | mem := List.mem_append.1 mem
    · refine (front.resolves tree mem).congr fun name pos spot => or_congr_right ?_
      have here := front.spots pos (List.mem_flatMap.2 ⟨tree, mem, spot⟩)
      refine ⟨fun ⟨place, bound, before⟩ => ⟨place, by simp [bound], before⟩, ?_⟩
      rintro ⟨place, bound, before⟩
      rw [List.flatMap_append] at bound
      obtain bound | bound := List.mem_append.1 bound
      · exact ⟨place, bound, before⟩
      · have there := back.spots place (mem_spots_of_bindings bound)
        unfold Pos.Before at here there before
        omega
    · refine (back.resolves tree mem).congr fun name pos spot => ?_
      have here := back.spots pos (List.mem_flatMap.2 ⟨tree, mem, spot⟩)
      unfold Sees
      rw [front.locals, or_assoc, List.flatMap_append]
      refine or_congr_right ⟨?_, ?_⟩
      · rintro (⟨place, bound⟩ | ⟨place, bound, before⟩)
        · have there := front.spots place (mem_spots_of_bindings bound)
          refine ⟨place, List.mem_append_left _ bound, ?_⟩
          unfold Pos.Before at here there ⊢
          omega
        · exact ⟨place, List.mem_append_right _ bound, before⟩
      · rintro ⟨place, bound, before⟩
        obtain bound | bound := List.mem_append.1 bound
        · exact .inl ⟨place, bound⟩
        · exact .inr ⟨place, bound, before⟩

/-- Taking tokens binds nothing. -/
theorem skip (ahead : s₁.ahead <:+ s.ahead) (close : s₁.close = s.close)
    (scopes : s₁.scopes = s.scopes) : s.Scoped [] s₁ := by
  intro sorted
  obtain ⟨taken, whole⟩ := ahead
  have ordered := sorted.ordered
  rw [← whole, List.append_assoc] at ordered
  refine ⟨⟨?_, close ▸ sorted.close, scopes ▸ sorted.scopes⟩, by rw [scopes], ?_, ?_, nofun, nofun⟩
  · rw [close]
    exact (List.pairwise_append.1 ordered).2.1
  · -- Either no token is taken, or the first one stands before all that are left.
    cases taken with
    | nil =>
        have same : s₁.current = s.current := by
          rw [current, current, close, ← whole]
          rfl
        rw [same]
        exact fun before => before.ne rfl
    | cons first rest =>
        have next : s₁.current ∈ rest ++ (s₁.ahead ++ [s.close]) := by
          rw [current, ← close]
          cases s₁.ahead <;> simp
        have before := (List.pairwise_cons.1 ordered).1 s₁.current next
        rw [show s.current = first by rw [current, ← whole]; rfl]
        unfold Pos.Before at before ⊢
        omega
  · simp [isLocal, scopes]

theorem refl (s : ParseState) : s.Scoped [] s :=
  skip List.suffix_rfl rfl rfl

theorem next (s : ParseState) : s.Scoped [] s.next :=
  skip (List.tail_suffix _) rfl rfl

theorem pastNewlines (s : ParseState) : s.Scoped [] s.pastNewlines :=
  skip (List.dropWhile_suffix _) rfl rfl

theorem skips (passed : s.Skips s₁) : s.Scoped [] s₁ := by
  obtain ⟨rfl, -⟩ := passed
  exact pastNewlines s

theorem continued (s : ParseState) : s.Scoped [] s.continued := by
  unfold ParseState.continued
  split
  · exact pastNewlines s
  · exact refl s

theorem pastThen (s : ParseState) : s.Scoped [] s.pastThen := by
  unfold ParseState.pastThen
  split
  · exact next s
  · exact refl s

/-- Tokens are taken behind the trees. -/
theorem after (read : s.Scoped trees s₁) (behind : s₁.Scoped [] s₂) : s.Scoped trees s₂ := by
  simpa using read.trans behind

/-- The depth of commands is nothing to the scopes. -/
theorem atDepth {depth : Nat} (read : s.Scoped trees s₁) :
    s.Scoped trees (s₁.atDepth depth) :=
  fun sorted =>
    have binds := read sorted
    ⟨⟨binds.sorted.ordered, binds.sorted.close, binds.sorted.scopes⟩, binds.outer, binds.forward,
      binds.locals, binds.spots, binds.resolves⟩

theorem fromDepth {depth : Nat} (read : (s.atDepth depth).Scoped trees s₁) :
    s.Scoped trees s₁ :=
  fun sorted =>
    have binds := read ⟨sorted.ordered, sorted.close, sorted.scopes⟩
    ⟨binds.sorted, binds.outer, binds.forward, binds.locals, binds.spots, binds.resolves⟩

end Scoped

end ParseState

/-- The first trees bind the same names as the others, which resolve where the first ones do. -/
structure Covers (trees others : List Node) : Prop where
  bindings : ∀ binding, binding ∈ others.flatMap Node.bindings ↔
    binding ∈ trees.flatMap Node.bindings
  spots : ∀ pos ∈ others.flatMap Node.spots, pos ∈ trees.flatMap Node.spots
  resolves : ∀ visible, (∀ tree ∈ trees, tree.Resolves visible) →
    ∀ other ∈ others, other.Resolves visible

namespace ParseState.Scoped

variable {s s₁ s₂ : ParseState} {trees others : List Node}

theorem cover (read : s.Scoped trees s₁) (covers : Covers trees others) :
    s.Scoped others s₁ := by
  intro sorted
  have binds := read sorted
  have same : s.Sees trees = s.Sees others := by
    funext name pos
    simp only [Sees, covers.bindings]
  refine ⟨binds.sorted, binds.outer, binds.forward, fun name => ?_,
    fun pos mem => binds.spots pos (covers.spots pos mem), ?_⟩
  · rw [binds.locals]
    simp only [covers.bindings]
  · exact covers.resolves _ (same ▸ binds.resolves)

end ParseState.Scoped

namespace Node

/-- A node that does nothing but bind a name. -/
def binder (pos : Pos) (name : String) : Node :=
  .varField pos (some (.name .ident pos name))

/-- A node without parts of its own that binds and calls what another node does by itself. -/
structure Marks (marker node : Node) : Prop where
  noScope : node.isScope = false := by rfl
  binds : marker.bindings = node.binds := by rfl
  spots : marker.spots = node.ownSpots := by rfl
  noRead : node.localName? = none := by rfl
  calls : marker.calledName? = node.calledName? := by rfl
  pos : marker.pos = node.pos := by rfl

/-- Whether a node neither binds, reads or calls a name itself nor opens a scope. -/
def isNeutral (node : Node) : Bool :=
  !node.isScope && node.binds.isEmpty && node.localName?.isNone && node.calledName?.isNone

end Node

namespace Covers

variable {trees others more most : List Node} {node marker : Node}

theorem refl (trees : List Node) : Covers trees trees :=
  ⟨fun _ => .rfl, fun _ => id, fun _ => id⟩

theorem trans (first : Covers trees others) (second : Covers others more) : Covers trees more where
  bindings binding := (second.bindings binding).trans (first.bindings binding)
  spots pos mem := first.spots pos (second.spots pos mem)
  resolves visible resolves := second.resolves visible (first.resolves visible resolves)

theorem append (first : Covers trees others) (second : Covers more most) :
    Covers (trees ++ more) (others ++ most) := by
  refine ⟨fun binding => ?_, fun pos mem => ?_, fun visible resolves => ?_⟩
  · rw [List.flatMap_append, List.flatMap_append, List.mem_append, List.mem_append]
    exact or_congr (first.bindings binding) (second.bindings binding)
  · rw [List.flatMap_append, List.mem_append] at mem ⊢
    exact mem.imp (first.spots pos) (second.spots pos)
  · obtain ⟨left, right⟩ := List.forall_mem_append.1 resolves
    exact List.forall_mem_append.2 ⟨first.resolves visible left, second.resolves visible right⟩

open Node

/-- A neutral node says what the nodes below it say. -/
theorem wrap (below : node.children = trees) (neutral : node.isNeutral = true) :
    Covers trees [node] := by
  subst below
  simp only [isNeutral, Bool.and_eq_true, Bool.not_eq_true', List.isEmpty_iff,
    Option.isNone_iff_eq_none] at neutral
  obtain ⟨⟨⟨noScope, noBinds⟩, noRead⟩, noCall⟩ := neutral
  refine ⟨fun binding => ?_, fun pos mem => ?_, fun visible resolves other mem => ?_⟩
  · rw [List.flatMap_singleton, bindings_eq noScope, noBinds, List.nil_append]
  · rw [List.flatMap_singleton, spots_eq] at mem
    simpa [ownSpots, noBinds, noRead, noCall] using mem
  · obtain rfl := List.mem_singleton.1 mem
    refine .intro (by simp [noRead]) (by simp [noCall]) fun child mem => ?_
    refine (resolves child mem).congr fun name pos _ => ?_
    simp [visibleInside, noScope]

/-- A neutral node can be taken off what is below it, too. -/
theorem unwrap (below : node.children = trees) (neutral : node.isNeutral = true) :
    Covers [node] trees := by
  have wraps := wrap below neutral
  subst below
  simp only [isNeutral, Bool.and_eq_true, Bool.not_eq_true'] at neutral
  refine ⟨fun binding => (wraps.bindings binding).symm, fun pos mem => ?_, ?_⟩
  · rw [List.flatMap_singleton, spots_eq]
    exact List.mem_append_right _ mem
  · intro visible resolves child mem
    cases resolves node List.mem_cons_self with
    | intro _ _ inside =>
      refine (inside child mem).congr fun name pos _ => ?_
      simp [visibleInside, neutral.1.1.1]

/-- A node that binds or calls a name does what its marker and the nodes below it do. -/
theorem marked (marks : marker.Marks node) (below : node.children = trees) :
    Covers (marker :: trees) [node] := by
  subst below
  refine ⟨fun binding => ?_, fun place mem => ?_, fun visible resolves other mem => ?_⟩
  · rw [List.flatMap_singleton, bindings_eq marks.noScope, List.flatMap_cons, marks.binds]
  · rw [List.flatMap_singleton, spots_eq] at mem
    rwa [List.flatMap_cons, marks.spots]
  · obtain rfl := List.mem_singleton.1 mem
    obtain ⟨marked, below⟩ := List.forall_mem_cons.1 resolves
    cases marked with
    | intro _ called _ =>
      rw [marks.calls, marks.pos] at called
      refine .intro (by simp [marks.noRead]) called fun child mem => ?_
      refine (below child mem).congr fun name pos _ => ?_
      simp [visibleInside, marks.noScope]

/-- Gathering entries keeps the names that the arguments bind, read and call. -/
theorem gatherEntries (parts : List Node) : Covers parts (Node.gatherEntries parts) := by
  induction parts with
  | nil => exact refl []
  | cons part rest ih =>
      rw [Node.gatherEntries]
      split
      · split
        next pos entries tail found =>
          rw [found] at ih
          have opened : Covers [.bareAssocHash pos entries] entries :=
            unwrap (List.append_nil _) rfl
          have whole : Covers (part :: entries) [.bareAssocHash part.pos (part :: entries)] :=
            wrap (List.append_nil _) rfl
          have both := ((refl [part]).append opened).trans whole
          exact ((refl [part]).append ih).trans (both.append (refl tail))
        next =>
          have whole : Covers [part] [.bareAssocHash part.pos [part]] := wrap rfl rfl
          exact whole.append ih
      · exact (refl [part]).append ih

end Covers

theorem Node.resolves_name {visible : String → Pos → Prop} {kind : NameKind} {pos : Pos}
    {text : String} : (Node.name kind pos text).Resolves visible :=
  (show Covers [] [.name kind pos text] from .wrap rfl rfl).resolves visible nofun _
    List.mem_cons_self

namespace ParseState

variable {s s₁ s₂ : ParseState} {trees : List Node} {node : Node} {name : String}

theorem isLocal_declaring (opened : s.scopes ≠ []) (other : String) :
    (s.declaring name).isLocal other = true ↔ s.isLocal other = true ∨ other = name := by
  obtain ⟨ahead, close, scopes, depth⟩ := s
  cases scopes with
  | nil => exact absurd rfl opened
  | cons scope outer =>
      simp only [isLocal, declaring, declare, List.any_cons, List.contains_cons, Bool.or_eq_true,
        beq_iff_eq]
      rw [or_assoc, or_comm]

/-- A token that is no end mark stands before the next one. -/
theorem Sorted.before_next (sorted : s.Sorted) (there : s.current.kind ≠ .eof) :
    s.current.pos.Before s.next.current.pos := by
  have some := ahead_ne_nil sorted.close there
  have ordered := sorted.ordered
  obtain ⟨ahead, close, scopes, depth⟩ := s
  cases ahead with
  | nil => exact absurd rfl some
  | cons first rest =>
      refine (List.pairwise_cons.1 ordered).1 _ ?_
      cases rest <;> simp [ParseState.next, current]

namespace Scoped

/-- A node that neither binds nor opens anything is read with what is below it. -/
theorem wrap (read : s.Scoped trees s₁) (children : node.children = trees)
    (neutral : node.isNeutral = true) : s.Scoped [node] s₁ :=
  read.cover (.wrap children neutral)

/-- A node that binds or calls a name is read with what is below it, behind the name. -/
theorem marked {marker : Node} (mark : s.Scoped [marker] s₁) (rest : s₁.Scoped trees s₂)
    (marks : marker.Marks node) (below : node.children = trees) : s.Scoped [node] s₂ :=
  (mark.trans rest).cover (.marked marks below)

/-- A token that names something is read, and decides what is a variable. -/
theorem spot (there : s.current.kind ≠ .eof) (bindings : node.bindings = [])
    (spots : node.spots = [s.current.pos])
    (resolves : node.Resolves fun name _ => s.isLocal name = true) : s.Scoped [node] s.next := by
  intro sorted
  have binds := next s sorted
  have before := sorted.before_next there
  refine ⟨binds.sorted, binds.outer, binds.forward, ?_, ?_, ?_⟩
  · simpa [bindings] using binds.locals
  · simpa [spots, before] using fun before => Pos.Before.ne before rfl
  · have same : s.Sees [node] = fun name _ => s.isLocal name = true := by
      funext name pos
      simp [Sees, bindings]
    simpa [same] using resolves

/-- A name that is a variable is read as one. -/
theorem localVar (kind : s.current.kind = .ident) (isLocal : s.isLocal s.current.text = true) :
    s.Scoped [.varRef s.current.pos (.name .ident s.current.pos s.current.text)] s.next := by
  refine spot (by simp [kind]) rfl rfl (.intro ?_ nofun ?_)
  · rintro name ⟨⟩
    exact isLocal
  · exact List.forall_mem_singleton.2 Node.resolves_name

/-- A name that is no variable is called. -/
theorem bareCall (kind : s.current.kind = .ident) (noLocal : s.isLocal s.current.text = false) :
    s.Scoped [.vcall s.current.pos (.name .ident s.current.pos s.current.text)] s.next := by
  refine spot (by simp [kind]) rfl rfl (.intro nofun ?_ ?_)
  · rintro name ⟨⟩
    simp [noLocal]
  · exact List.forall_mem_singleton.2 Node.resolves_name

/-- A name becomes a variable behind its binder. -/
theorem bind (there : s.current.kind ≠ .eof) (read : s.next.Scoped [] s₁) (name : String) :
    s.Scoped [.binder s.current.pos name] (s₁.declaring name) := by
  intro sorted
  have binds := (next s).trans read sorted
  have moves := Moves.declaring name s₁
  have bindings : (Node.binder s.current.pos name).bindings = [(name, s.current.pos)] := rfl
  have spots : (Node.binder s.current.pos name).spots = [s.current.pos] := rfl
  refine ⟨⟨binds.sorted.ordered, binds.sorted.close, ?_⟩, ?_, binds.forward, fun other => ?_, ?_,
    ?_⟩
  · rw [← List.length_pos_iff, moves.scopes]
    exact List.length_pos_iff.2 binds.sorted.scopes
  · rw [moves.outer, binds.outer]
  · rw [isLocal_declaring binds.sorted.scopes, binds.locals]
    simp [bindings]
  · have before : s.current.pos.Before s₁.current.pos := by
      have first := sorted.before_next there
      have rest := (read (next s sorted).sorted).forward
      unfold Pos.Before at first rest ⊢
      omega
    simpa [spots] using ⟨fun before => Pos.Before.ne before rfl, before⟩
  · refine List.forall_mem_singleton.2 (.of_below rfl rfl ?_)
    exact List.forall_mem_singleton.2 Node.resolves_name

/-- What is read in a new scope is over when it is closed. -/
theorem scope (inner : s.opened.Scoped trees s₁) (below : node.children = trees)
    (isScope : node.isScope = true) : s.Scoped [node] s₁.closed := by
  subst below
  intro sorted
  have binds := inner ⟨sorted.ordered, sorted.close, List.cons_ne_nil _ _⟩
  have scopes : s₁.closed.scopes = s.scopes := binds.outer
  have noBinds : node.binds = [] := by cases node <;> first | rfl | cases isScope
  have noRead : node.localName? = none := by cases node <;> first | rfl | cases isScope
  have noCall : node.calledName? = none := by cases node <;> first | rfl | cases isScope
  have bindings := Node.bindings_of_scope isScope
  refine ⟨⟨binds.sorted.ordered, binds.sorted.close, ?_⟩, ?_, binds.forward, fun name => ?_, ?_, ?_⟩
  · rw [scopes]
    exact sorted.scopes
  · rw [scopes]
  · simp [bindings, isLocal, scopes]
  · have spots : ∀ pos ∈ node.children.flatMap Node.spots,
        ¬pos.Before s.current.pos ∧ pos.Before s₁.closed.current.pos := binds.spots
    rw [List.flatMap_singleton, Node.spots_eq]
    simpa [Node.ownSpots, noBinds, noRead, noCall] using spots
  · refine List.forall_mem_singleton.2 (.intro (by simp [noRead]) (by simp [noCall]) ?_)
    intro child mem
    refine (binds.resolves child mem).congr fun name pos _ => ?_
    simp [Node.visibleInside, Node.BindsBefore, Sees, isScope, bindings, isLocal, opened]

/-- A node alone says nothing of names. -/
theorem inert (childless : node.children = []) (neutral : node.isNeutral = true) :
    s.Scoped [node] s :=
  (refl s).wrap childless neutral

theorem ofName {kind : NameKind} {pos : Pos} {text : String} :
    s.Scoped [.name kind pos text] s :=
  inert rfl rfl

theorem unwrap (read : s.Scoped [node] s₁) (neutral : node.isNeutral = true) :
    s.Scoped node.children s₁ :=
  read.cover (.unwrap rfl neutral)

theorem leaf (found : s.current.leaf? = some node) : s.Scoped [node] s.next := by
  refine (?_ : s.Scoped [node] s).after (next s)
  obtain ⟨kind, rfl⟩ | ⟨kind, rfl⟩ | ⟨kind, noIdent, rfl⟩ := Token.leaf?_cases found
  · exact inert rfl rfl
  · exact ofName.wrap rfl rfl
  · refine ofName.wrap rfl ?_
    cases kind <;> first | rfl | exact absurd rfl noIdent

theorem callee (found : s.current.callee? = some node) : s.Scoped [node] s.next := by
  obtain ⟨kind, rfl⟩ := Token.callee?_eq_name found
  exact ofName.after (next s)

theorem message (found : s.current.message? = some node) : s.Scoped [node] s.next := by
  obtain ⟨kind, rfl⟩ := Token.message?_eq_name found
  exact ofName.after (next s)

/-- A target in the place of an expression binds its name. -/
theorem assigned {expr : Node} {pos namePos : Pos} {text : String} (read : s.Scoped [expr] s₁)
    (bindings : expr.bindings = []) (spot : pos ∈ expr.spots) (moves : s₁.Moves s₂)
    (ahead : s₂.ahead = s₁.ahead)
    (locals : s.Binds [expr] s₁ →
      ∀ other, s₂.isLocal other = true ↔ s₁.isLocal other = true ∨ other = text) :
    s.Scoped [.varField pos (some (.name .ident namePos text))] s₂ := by
  intro sorted
  have binds := read sorted
  have binds_name :
      (Node.varField pos (some (.name .ident namePos text))).bindings = [(text, pos)] := rfl
  have spots_name : (Node.varField pos (some (.name .ident namePos text))).spots = [pos] := rfl
  have current : s₂.current = s₁.current := by rw [current, current, ahead, moves.close]
  refine ⟨⟨?_, moves.eof binds.sorted.close, ?_⟩, moves.outer.trans binds.outer, ?_,
    fun other => ?_, ?_, ?_⟩
  · rw [ahead, moves.close]
    exact binds.sorted.ordered
  · rw [← List.length_pos_iff, moves.scopes]
    exact List.length_pos_iff.2 binds.sorted.scopes
  · rw [current]
    exact binds.forward
  · rw [locals binds other, binds.locals]
    simp [bindings, binds_name]
  · have within := binds.spots pos (by simpa using spot)
    simpa [spots_name, current] using within
  · refine List.forall_mem_singleton.2 (.of_below rfl rfl ?_)
    exact List.forall_mem_singleton.2 Node.resolves_name

/-- A target binds the name that it is made of. -/
theorem target {expr made : Node} (read : s.Scoped [expr] s₁)
    (ran : (Parse.target expr).run s₁ = .ok (made, s₂)) (shaped : expr.wellShaped = true)
    (isExpr : expr.isExpr = true) : s.Scoped [made] s₂ := by
  have here := (Node.wellShaped_iff.1 shaped).1
  unfold Parse.target at ran
  split at ran <;>
    simp only [ParseM.run_bind_ok, ParseM.run_declare_ok, ParseM.run_pure_ok,
      ParseM.run_throw_ok, ParseM.exists_and_eq_left, Prod.mk.injEq] at ran
  case h_1 pos kind namePos text =>
    obtain ⟨-, rfl, rfl⟩ := ran
    obtain rfl : kind = .ident := by simpa [Node.shaped, Node.isOfKind, Node.kind] using here
    exact read.assigned rfl List.mem_cons_self (.declaring text s₁) rfl
      fun binds => isLocal_declaring binds.sorted.scopes
  case h_3 pos inner noKeyword =>
    obtain ⟨rfl, rfl⟩ := ran
    cases inner with
    | name kind namePos text =>
        cases kind with
        | ident =>
            -- The name is a variable already, and what binds it again changes nothing.
            refine read.assigned rfl List.mem_cons_self (.refl _) rfl fun binds other => ?_
            cases binds.resolves _ List.mem_cons_self with
            | intro reads _ _ =>
              have outer := (reads text rfl).resolve_right (by rintro ⟨_, mem, -⟩; cases mem)
              have known := (binds.locals text).2 (.inl outer)
              exact ⟨.inl, fun either => either.elim id fun same => same ▸ known⟩
        | _ => exact (read.unwrap rfl).wrap rfl rfl
    | _ => cases here
  case h_4 =>
    obtain ⟨rfl, rfl⟩ := ran
    obtain rfl : _ = [] := by simpa [Node.isExpr] using isExpr
    exact (read.unwrap rfl).wrap rfl rfl
  case h_5 =>
    obtain ⟨rfl, rfl⟩ := ran
    exact (read.unwrap rfl).wrap rfl rfl
  case h_6 =>
    obtain ⟨rfl, rfl⟩ := ran
    exact read

end Scoped

end ParseState

/-! ## Parameters -/

namespace Node

/-- A parameter as a node that binds its name by itself. -/
def asParam : Node → Node
  | .name _ pos text => .binder pos text
  | param => param

theorem mem_bindings_asParam {param : Node} {binding : String × Pos} :
    binding ∈ param.asParam.bindings ↔ param.named? = some binding ∨ binding ∈ param.bindings := by
  cases param with
  | name kind pos text =>
      have own : (Node.binder pos text).bindings = [(text, pos)] := rfl
      have none : (Node.name kind pos text).bindings = [] := rfl
      simp [asParam, named?, own, none, eq_comm]
  | _ => simp [asParam, named?]

theorem mem_spots_asParam {param : Node} {pos : Pos}
    (spot : pos ∈ param.named?.toList.map Prod.snd ++ param.spots) : pos ∈ param.asParam.spots := by
  cases param with
  | name kind place text =>
      have own : (Node.binder place text).spots = [place] := rfl
      have none : (Node.name kind place text).spots = [] := rfl
      simpa [asParam, named?, own, none] using spot
  | _ => simpa [asParam, named?] using spot

theorem resolves_of_asParam {param : Node} {visible : String → Pos → Prop}
    (resolves : param.asParam.Resolves visible) : param.Resolves visible := by
  cases param with
  | name => exact resolves_name
  | _ => exact resolves

end Node

namespace ParamList

variable {list : ParamList} {pos : Pos} {param : Node}

/-- A list takes a parameter that replaces none. -/
def Admits (list : ParamList) (param : Node) : Prop :=
  list.replaced param = none

/-- The parameters of a list that are names alone. -/
def names (list : ParamList) : List (String × Pos) :=
  (list.required ++ list.post).filterMap Node.named?

theorem bindings_toNode :
    (list.toNode pos).bindings =
      list.names ++ (list.toNode pos).children.flatMap Node.bindings :=
  Node.bindings_eq rfl

theorem spots_toNode :
    (list.toNode pos).spots =
      list.names.map Prod.snd ++ (list.toNode pos).children.flatMap Node.spots := by
  rw [Node.spots_eq, Node.ownSpots]
  exact congrArg (· ++ _) (List.append_nil _)

theorem resolves_toNode {visible : String → Pos → Prop} :
    (list.toNode pos).Resolves visible ↔
      ∀ child ∈ (list.toNode pos).children, child.Resolves visible := by
  have same : (list.toNode pos).visibleInside visible = visible := by
    funext name place
    simp [Node.visibleInside, toNode, Node.isScope]
  refine ⟨fun resolves => ?_, fun below => .of_below rfl rfl (by rwa [same])⟩
  cases resolves with
  | intro _ _ below => rwa [same] at below

theorem mem_names_add {binding : String × Pos} :
    binding ∈ (list.add param).names ↔
      binding ∈ list.names ∨ param.named? = some binding := by
  unfold add
  split
  case h_6 =>
    unfold addName names
    split <;> simp [or_comm, or_left_comm]
  all_goals simp [names, Node.named?]

/-- No parameter of a list is lost if one is added that replaces none. -/
theorem mem_children_add_iff {child : Node} (admits : list.Admits param) :
    child ∈ ((list.add param).toNode pos).children ↔
      child ∈ (list.toNode pos).children ∨ child = param := by
  refine ⟨mem_children_add, fun either => ?_⟩
  obtain ⟨required, optional, rest, post, keywords, keywordRest, block⟩ := list
  unfold Admits replaced at admits
  unfold add
  split
  case h_6 =>
    unfold addName
    split <;>
      simp only [toNode, Node.children, Node.fields, Field.toList, List.flatMap_cons,
        List.flatMap_nil, List.mem_append, List.mem_singleton] at either ⊢ <;> grind
  all_goals
    simp only [toNode, Node.children, Node.fields, Field.toList, List.flatMap_cons,
      List.flatMap_nil, List.mem_append, List.mem_singleton] at either ⊢
    grind

/-- A list with one more parameter binds what the list and the parameter do. -/
theorem covers_add (admits : list.Admits param) :
    Covers [list.toNode pos, param.asParam] [(list.add param).toNode pos] := by
  refine ⟨fun binding => ?_, fun place mem => ?_, fun visible resolves => ?_⟩
  · simp only [List.flatMap_cons, List.flatMap_nil, List.append_nil, List.mem_append,
      List.mem_flatMap, bindings_toNode, mem_names_add, mem_children_add_iff admits,
      Node.mem_bindings_asParam, or_and_right, exists_or, exists_eq_left]
    simp only [or_assoc, or_left_comm]
  · simp only [List.flatMap_cons, List.flatMap_nil, List.append_nil, List.mem_append,
      List.mem_flatMap, spots_toNode, List.mem_map, mem_names_add, mem_children_add_iff admits,
      or_and_right, exists_or, exists_eq_left] at mem ⊢
    have own := @Node.mem_spots_asParam param place
    simp only [List.mem_append, List.mem_map, Option.mem_toList] at own
    obtain (old | named) | (old | below) := mem
    · exact .inl (.inl old)
    · exact .inr (own (.inl named))
    · exact .inl (.inr old)
    · exact .inr (own (.inr below))
  · obtain ⟨old, more⟩ := List.forall_mem_cons.1 resolves
    refine List.forall_mem_singleton.2 (resolves_toNode.2 fun child mem => ?_)
    obtain mem | rfl := mem_children_add mem
    · exact resolves_toNode.1 old child mem
    · exact Node.resolves_of_asParam (more _ List.mem_cons_self)

/-- The comma that ends a list binds nothing. -/
theorem covers_comma {comma : Pos} (allows : list.allowsExcessedComma = true) :
    Covers [list.toNode pos] [toNode { list with rest := some (.excessedComma comma) } pos] := by
  have children (child : Node) :
      child ∈ (toNode { list with rest := some (.excessedComma comma) } pos).children ↔
        child ∈ (list.toNode pos).children ∨ child = .excessedComma comma := by
    simp only [allowsExcessedComma, Bool.and_eq_true, Option.isNone_iff_eq_none] at allows
    simp only [toNode, Node.children, Node.fields, Field.toList, List.flatMap_cons,
      List.flatMap_nil, List.mem_append, allows.1.1.1]
    grind
  have names : names { list with rest := some (.excessedComma comma) } = list.names := rfl
  have bindings : (Node.excessedComma comma).bindings = [] := rfl
  have spots : (Node.excessedComma comma).spots = [] := rfl
  refine ⟨fun binding => ?_, fun place mem => ?_, fun visible resolves => ?_⟩
  · simp only [List.flatMap_singleton, bindings_toNode, List.mem_append, List.mem_flatMap, names,
      children, or_and_right, exists_or, exists_eq_left, bindings, List.not_mem_nil, or_false]
  · simpa only [List.flatMap_singleton, spots_toNode, List.mem_append, List.mem_flatMap, names,
      children, or_and_right, exists_or, exists_eq_left, spots, List.not_mem_nil, or_false]
      using mem
  · have old := resolves_toNode.1 (resolves _ List.mem_cons_self)
    refine List.forall_mem_singleton.2 (resolves_toNode.2 fun child mem => ?_)
    obtain mem | rfl := (children child).1 mem
    · exact old child mem
    · exact .of_below rfl rfl (List.forall_mem_nil _)

end ParamList

/-! ## Rules -/

namespace ParseState.Scoped

variable {s s₁ : ParseState}

theorem ofComment (s : ParseState) (pos : Pos) (text : String) : s.Scoped [.comment pos text] s :=
  inert rfl rfl

/-- A comment is read with the statement before it. -/
theorem remark {stmt : Node} (read : s.Scoped [stmt] s₁) :
    s.Scoped [stmt.withComment (.comment s₁.current.pos s₁.current.text)] s₁.next := by
  have comment := (ofComment s₁ s₁.current.pos s₁.current.text).after (next s₁)
  cases stmt with
  | call =>
      refine ((read.unwrap rfl).trans comment).wrap ?_ rfl
      simp only [Node.withComment, Node.children, Node.fields, Field.toList, List.flatMap_cons,
        List.flatMap_nil, List.append_nil, List.append_assoc]
  | _ => exact (read.trans comment).wrap rfl rfl

theorem ofValues {values : List Node} (read : s.Scoped values s₁) (pos : Pos) :
    s.Scoped [.ofValues pos values] s₁ := by
  unfold Node.ofValues
  split
  · exact read.wrap (List.append_nil _) rfl
  · split
    · exact read
    · exact read.wrap (List.append_nil _) rfl

/-- A parameter whose name comes behind its own token, if it has one. -/
theorem paramName? (there : s.current.kind ≠ .eof) {param : Option Node → Node}
    (nameless : s.Scoped [param none] s)
    (below : ∀ name, (param (some name)).children = [name])
    (marks : ∀ pos text, (Node.binder s.current.pos text).Marks
      (param (some (.name .ident pos text)))) :
    s.Scoped [param s.next.paramName?.1] s.next.paramName?.2 := by
  unfold ParseState.paramName?
  split
  · exact (bind there (next s.next) _).marked ofName (marks _ _) (below _)
  · exact nameless.after (next s)

end ParseState.Scoped

theorem Token.kind_ne_eof_of_isWord {token : Token} {word : String}
    (isWord : token.isWord word = true) : token.kind ≠ .eof := by
  rcases Token.kind_of_isWord isWord with op | keyword
  · simp [op]
  · simp [keyword]

theorem Node.isNeutral_fcall {pos : Pos} {message args : Node} :
    (Node.fcall pos message (some args)).isNeutral = true := by
  cases message with
  | name kind => cases kind <;> rfl
  | _ => rfl

/-- The trees of the nodes that a rule goes on with. -/
def Rule.heldTrees : Rule → List Node
  | .joined left | .chain _ _ left | .suffixes left | .callSuffix left | .block _ left => [left]
  | .paramList _ pos list => [list.toNode pos]
  | _ => []

/-- The trees of the nodes that a rule yields; a parameter binds its name. -/
def Rule.yieldedTrees : Rule → Field Node → List Node
  | .param _, field => field.toList.map Node.asParam
  | _, field => field.toList

/-- A rule within a program, which repeats only rules that go on with no nodes. -/
def Rule.Inner : Rule → Prop
  | .program => False
  | .items item _ | .entries item _ =>
      (item.heldTrees = [] ∧ item.yieldedTrees = Field.toList) ∧ item.Inner
  | _ => True

/-- One item of a list is read by its own rule. -/
theorem Rule.Inner.item {item : Rule} {s₀ s s₁ : ParseState} {node : Node}
    (inner : (item.heldTrees = [] ∧ item.yieldedTrees = Field.toList) ∧ item.Inner)
    (reads : item.Inner → ∀ {s₀ : ParseState}, s₀.Scoped item.heldTrees s →
      s₀.Scoped (item.yieldedTrees (.node node)) s₁)
    (held : s₀.Scoped [] s) : s₀.Scoped [node] s₁ := by
  obtain ⟨⟨holds, yields⟩, inner⟩ := inner
  rw [holds, yields] at reads
  exact reads inner held

open ParseState ParseState.Scoped in
/-- Reading by a rule binds the names of the trees that it yields. -/
theorem Derives.scopes {rule : Rule} {s s' : ParseState} {field : Field Node}
    (reads : Derives ParamList.Admits rule s field s') (inner : rule.Inner) {s₀ : ParseState}
    (held : s₀.Scoped rule.heldTrees s) : s₀.Scoped (rule.yieldedTrees field) s' := by
  -- What a rule goes on with was read since `s₀`, so a rule that adds to a tree starts further in
  -- front than at `s`.
  induction reads generalizing s₀ with
  | program => exact inner.elim
  | stmtsDone | exceptionsNone | entriesDone => exact held
  | rescueNone | holderNone | clauseNone | blockVarNone | lambdaNone => exact held
  | joinedDone | suffixesDone | chainDone | blockNone | paramsDone => exact held
  | stmtsBreak _ _ _ ih => exact ih trivial (held.after (.next _))
  | stmtsComment _ _ _ ih =>
      exact ((held.trans (ofComment _ _ _)).after (.next _)).trans (ih trivial (.refl _))
  | stmtsRemark _ _ _ _ _ _ ih₁ ih₂ =>
      exact (remark (ih₁ trivial held)).trans (ih₂ trivial (.refl _))
  | stmtsMore _ _ _ _ _ _ _ _ ih₁ ih₂ =>
      exact (ih₁ trivial held).trans (ih₂ trivial (.refl _))
  | stmtsLast _ _ _ _ _ _ ih | stmt _ _ _ ih | unassigned _ _ _ ih | listedPlain _ _ ih
  | notNegated _ _ ih | notRange _ _ ih | tightest _ ih | notMinus _ _ ih | notPower _ _ ih
  | notUnary _ _ ih | elementPlain _ _ ih | argumentPlain _ _ _ _ ih | lambdaBare _ _ _ ih =>
      exact ih trivial held
  | exceptionsSome _ _ ih => exact ih ⟨⟨rfl, rfl⟩, trivial⟩ held
  | @assign takesList s s₁ s₂ s₃ s₄ expr target value reads _ made skips _ ih₁ ih₂ =>
      have shaped := reads.shaped trivial
      have target := (ih₁ trivial (.refl _)).target made shaped.node shaped.kind
      have value : s₃.Scoped [value] s₄ := by
        cases takesList <;> exact ih₂ trivial (.refl _)
      have whole := ((target.after (.next _)).after (.skips skips)).trans value
      exact held.trans (whole.wrap rfl rfl)
  | opAssign reads _ _ made skips _ ih₁ ih₂ =>
      have shaped := reads.shaped trivial
      have target := (ih₁ trivial (.refl _)).target made shaped.node shaped.kind
      have whole := ((target.after (.next _)).after (.skips skips)).trans (ih₂ trivial (.refl _))
      exact held.trans (whole.wrap rfl rfl)
  | values _ ih => exact ofValues (ih ⟨⟨rfl, rfl⟩, trivial⟩ held) _
  | listedSplat _ _ ih | elementSplat _ _ ih | argumentSplat _ _ ih | entrySplat _ _ ih
  | argumentDoubleSplat _ _ ih | argumentBlock _ _ _ ih | not _ _ ih | minus _ _ ih
  | unary _ _ ih =>
      exact (ih trivial (held.after (.next _))).wrap rfl rfl
  | expression _ _ ih₁ ih₂ | operand _ _ ih₁ ih₂ | level _ _ ih₁ ih₂ =>
      exact ih₂ trivial (ih₁ trivial held)
  | joinedMore _ skips _ _ ih₁ ih₂ | chainMore _ _ skips _ _ ih₁ ih₂ =>
      have left := (held.after (.next _)).after (.skips skips)
      exact ih₂ trivial ((left.trans (ih₁ trivial (.refl _))).wrap rfl rfl)
  | chainOnce _ _ skips _ ih =>
      have left := (held.after (.next _)).after (.skips skips)
      exact (left.trans (ih trivial (.refl _))).wrap rfl rfl
  | rangeBetween _ _ _ ih₁ ih₂ =>
      exact (((ih₁ trivial held).after (.next _)).trans (ih₂ trivial (.refl _))).wrap rfl rfl
  | power _ _ skips _ ih₁ ih₂ =>
      have left := ((ih₁ trivial held).after (.next _)).after (.skips skips)
      exact (left.trans (ih₂ trivial (.refl _))).wrap rfl rfl
  | suffixesCall _ _ _ ih₁ ih₂ => exact ih₂ trivial (ih₁ trivial (held.after (.continued _)))
  | suffixesIndex _ _ _ ih₁ ih₂ =>
      refine ih₂ trivial ((held.trans (ih₁ trivial (.refl _))).wrap ?_ rfl)
      simp [Node.children, Node.fields, Field.toList, Rule.heldTrees, Rule.yieldedTrees]
  | @callShorthand s s₁ _ _ _ _ _ skips _ _ _ ih₁ ih₂ =>
      have receiver := (held.after (.next s)).after (.skips skips)
      have message : s₁.Scoped [.callShorthand s₁.current.pos] s₁ := inert rfl rfl
      exact ih₂ trivial (((receiver.trans message).trans (ih₁ trivial (.refl _))).wrap rfl rfl)
  | constPath skips found _ _ =>
      exact (((held.after (.next _)).after (.skips skips)).trans (.message found)).wrap rfl rfl
  | callBare skips found _ _ _ ih =>
      have message := ((held.after (.next _)).after (.skips skips)).trans (.message found)
      exact ih trivial (message.wrap rfl rfl)
  | callArgs skips found _ _ _ ih₁ ih₂ =>
      have message := ((held.after (.next _)).after (.skips skips)).trans (.message found)
      exact ih₂ trivial ((message.trans (ih₁ trivial (.refl _))).wrap rfl rfl)
  | leaf found => exact held.trans (.leaf found)
  | constant => exact held.trans ((ofName.wrap rfl rfl).after (.next _))
  | fcall found _ _ _ ih₁ ih₂ =>
      have callee := held.trans (.callee found)
      exact ih₂ trivial ((callee.trans (ih₁ trivial (.refl _))).wrap rfl Node.isNeutral_fcall)
  | localVar kind _ isLocal => exact held.trans (.localVar kind isLocal)
  | vcall kind _ noLocal _ _ => exact held.trans (.bareCall kind noLocal)
  | command kind _ noLocal _ _ _ ih₁ ih₂ =>
      -- The name is called before its arguments are read, which may bind it.
      have name := held.trans (.bareCall kind noLocal)
      have args := (ih₁ trivial (.refl _)).fromDepth
      exact ih₂ trivial (Scoped.atDepth (name.marked (ofName.trans args) {} rfl))
  | fcallBlock kind _ noLocal _ _ _ ih =>
      have name := held.trans (.bareCall kind noLocal)
      exact ih trivial (name.marked ofName {} rfl)
  | paren _ skips _ skips' _ ih =>
      have inner := ih trivial ((held.after (.next _)).after (.skips skips))
      exact ((inner.after (.skips skips')).after (.next _)).wrap rfl rfl
  | array _ skips _ _ ih | hash _ skips _ _ ih =>
      have opened := (held.after (.next _)).atDepth.after (.skips skips)
      have elements := ih ⟨⟨rfl, rfl⟩, trivial⟩ opened
      exact ((elements.after (.next _)).wrap (List.append_nil _) rfl).atDepth
  | lambda _ _ _ ih₁ ih₂ =>
      have inside := (ih₁ trivial (.refl _)).trans (ih₂ trivial (.refl _))
      refine (held.after (.next _)).trans (inside.scope ?_ rfl)
      simp [Node.children, Node.fields, Field.toList, Rule.yieldedTrees]
  | blockBraces _ _ ih | blockDo _ _ ih =>
      exact (held.trans (ih trivial (.refl _))).wrap rfl rfl
  | braceBlock _ skips _ _ _ ih₁ ih₂ =>
      have params := ih₁ trivial (.skips skips)
      have inside := (params.trans (ih₂ trivial (.refl _))).after (.next _)
      refine (held.after (.next _)).trans (inside.scope ?_ rfl).fromDepth.atDepth
      simp [Node.children, Node.fields, Field.toList, Rule.yieldedTrees]
  | doBlock _ _ _ _ ih₁ ih₂ =>
      have params := ih₁ trivial (.refl _)
      have inside := (params.trans (ih₂ trivial (.refl _))).after (.next _)
      refine (held.after (.next _)).trans (inside.scope ?_ rfl).fromDepth.atDepth
      simp [Node.children, Node.fields, Field.toList, Rule.yieldedTrees]
  | bodyStmt _ _ _ _ ih₁ ih₂ ih₃ ih₄ =>
      have stmts := (ih₁ trivial held).trans (ih₂ trivial (.refl _))
      have whole := (stmts.trans (ih₃ trivial (.refl _))).trans (ih₄ trivial (.refl _))
      refine whole.wrap ?_ rfl
      simp [Node.children, Node.fields, Field.toList, Rule.yieldedTrees]
  | rescueMore _ _ _ _ _ ih₁ ih₂ ih₃ ih₄ =>
      have head := (ih₁ trivial (held.after (.next _))).trans (ih₂ trivial (.refl _))
      have stmts := (head.after (.pastThen _)).trans (ih₃ trivial (.refl _))
      refine (stmts.trans (ih₄ trivial (.refl _))).wrap ?_ rfl
      simp [Node.children, Node.fields, Field.toList, Rule.yieldedTrees]
  | holderSome _ reads made ih =>
      have shaped := reads.shaped trivial
      have target := (ih trivial (.refl _)).target made shaped.node shaped.kind
      exact (held.after (.next _)).trans target
  | clauseSome _ _ ih => exact ih trivial (held.after (.next _))
  | blockVarBars => exact (held.trans (inert rfl rfl)).after (.next _)
  | blockVarSome _ _ _ ih =>
      exact ((ih trivial (held.after (.next _))).after (.next _)).wrap rfl rfl
  | lambdaParen _ _ _ ih | lambdaBraces _ _ _ ih | lambdaDo _ _ _ ih =>
      exact (ih trivial (held.after (.next _))).after (.next _)
  | params skips _ ih => exact ih trivial ((held.after (.skips skips)).trans (inert rfl rfl))
  | paramsLast _ _ admits skips _ ih =>
      have added := (held.trans (ih trivial (.refl _))).cover (ParamList.covers_add admits)
      exact added.after (.skips skips)
  | paramsExcess _ _ admits skips _ skips' _ _ allows ih =>
      have added := (held.trans (ih trivial (.refl _))).cover (ParamList.covers_add admits)
      have comma := ((added.after (.skips skips)).after (.next _)).after (.skips skips')
      exact comma.cover (ParamList.covers_comma allows)
  | paramsMore _ _ admits skips _ skips' _ _ ih₁ ih₂ =>
      have added := (held.trans (ih₁ trivial (.refl _))).cover (ParamList.covers_add admits)
      exact ih₂ trivial (((added.after (.skips skips)).after (.next _)).after (.skips skips'))
  | restParam isWord | keywordRestParam isWord =>
      have there := Token.kind_ne_eof_of_isWord isWord
      exact held.trans (.paramName? there (inert rfl rfl) (fun _ => rfl) fun _ _ => {})
  | blockParam isWord _ =>
      have there := Token.kind_ne_eof_of_isWord isWord
      exact held.trans (Scoped.marked (bind there (.next _) _) ofName {} rfl)
  | keywordParam kind declares _ =>
      subst declares
      exact held.trans (Scoped.marked (bind (kind.trans_ne (by decide)) (.refl _) _) ofName {} rfl)
  | nameParam kind declares _ =>
      subst declares
      exact held.trans (bind (kind.trans_ne (by decide)) (.refl _) _)
  | keywordDefault kind declares _ _ ih =>
      subst declares
      have rest := ih trivial (.refl _)
      exact held.trans
        (Scoped.marked (bind (kind.trans_ne (by decide)) (.refl _) _) (ofName.trans rest) {} rfl)
  | optionalParam kind declares _ _ ih =>
      subst declares
      have rest := ih trivial (.next _)
      exact held.trans
        (Scoped.marked (bind (kind.trans_ne (by decide)) (.refl _) _) (ofName.trans rest) {} rfl)
  | itemsLast _ _ ih => exact Rule.Inner.item inner ih held
  | itemsClosed _ _ skips _ ih =>
      exact ((Rule.Inner.item inner ih held).after (.next _)).after (.skips skips)
  | itemsMore _ _ skips _ _ ih₁ ih₂ =>
      have first := ((Rule.Inner.item inner ih₁ held).after (.next _)).after (.skips skips)
      exact first.trans (ih₂ inner (.refl _))
  | entriesLast _ _ skips _ ih => exact (Rule.Inner.item inner ih held).after (.skips skips)
  | entriesMore _ _ skips _ skips' _ ih₁ ih₂ =>
      have first := ((Rule.Inner.item inner ih₁ held).after (.skips skips)).after (.next _)
      exact (first.after (.skips skips')).trans (ih₂ inner (.refl _))
  | entryLabel _ skips _ ih | argumentLabel _ skips _ ih =>
      have opened := (held.after (.next _)).after (.skips skips)
      exact ((opened.trans ofName).trans (ih trivial (.refl _))).wrap rfl rfl
  | entryArrow _ _ _ skips _ skips' _ ih₁ ih₂ =>
      have key := ((ih₁ trivial held).after (.skips skips)).after (.next _)
      exact ((key.after (.skips skips')).trans (ih₂ trivial (.refl _))).wrap rfl rfl
  | argumentArrow _ _ _ _ skips _ ih₁ ih₂ =>
      have key := ((ih₁ trivial held).after (.next _)).after (.skips skips)
      exact (key.trans (ih₂ trivial (.refl _))).wrap rfl rfl
  | arguments _ ih =>
      exact ((ih ⟨⟨rfl, rfl⟩, trivial⟩ held).cover (.gatherEntries _)).wrap (List.append_nil _) rfl
  | argumentBlockLone => exact (held.trans (inert rfl rfl)).after (.next _)
  | parenEmpty _ skips _ =>
      have opened := (held.after (.next _)).atDepth.after (.skips skips)
      exact ((opened.trans (inert rfl rfl)).after (.next _)).atDepth
  | parenFull _ skips _ _ skips' _ ih =>
      have args := ih trivial ((held.after (.next _)).atDepth.after (.skips skips))
      exact (((args.after (.skips skips')).after (.next _)).wrap rfl rfl).atDepth
  | indexEmpty _ skips _ => exact ((held.after (.next _)).after (.skips skips)).after (.next _)
  | indexFull _ skips _ _ skips' _ ih =>
      have args := ih trivial ((held.after (.next _)).after (.skips skips))
      exact (args.after (.skips skips')).after (.next _)

/-! ## Sources -/

/-- The state before the tokens of a source has them in order. -/
theorem Tokens.sorted_start {source : String} {tokens : Tokens}
    (lexed : Tokens.ofSource source = .ok tokens) : (ParseState.start tokens).Sorted :=
  ⟨pairwise_before lexed, close_of_source lexed, List.cons_ne_nil _ _⟩

/-- The names of a program resolve if nothing is visible outside of it. -/
theorem Derives.resolves {source : String} {tokens : Tokens} {tree : Node} {s : ParseState}
    (lexed : Tokens.ofSource source = .ok tokens)
    (reads : Derives ParamList.Admits .program (.start tokens) (.node tree) s) :
    tree.Resolves fun _ _ => False := by
  cases reads with
  | @program _ _ body stmts _ =>
    have binds := stmts.scopes trivial (.refl _) (Tokens.sorted_start lexed)
    refine .of_below rfl rfl fun child mem => ?_
    have mem : child ∈ body := by
      simpa [Node.children, Node.fields, Field.toList] using mem
    refine (binds.resolves child mem).congr fun name pos _ => ?_
    simp [Node.visibleInside, Node.BindsBefore, ParseState.Sees, Node.isScope, Node.children,
      Node.fields, Field.toList, ParseState.isLocal, ParseState.start, Rule.yieldedTrees]

/-- A source can be read so that no parameter replaces one of its kind in the same list. -/
def KeepsParams (source : String) : Prop :=
  ∃ tokens tree s, Tokens.ofSource source = .ok tokens ∧
    Derives ParamList.Admits .program (.start tokens) (.node tree) s

/-- A name is read as a variable only where a scope around it binds it further in front, and called
only where none does. -/
theorem Node.bindsBefore_of_source {source : String} {tree : Node}
    (parsed : Node.ofSource source = .ok tree) (keeps : KeepsParams source)
    {scopes : List Node} {node : Node} (within : tree.Within scopes node) :
    (∀ name, node.localName? = some name → ∃ scope ∈ scopes, scope.BindsBefore name node.pos) ∧
      ∀ name, node.calledName? = some name →
        ¬∃ scope ∈ scopes, scope.BindsBefore name node.pos := by
  obtain ⟨tokens, tree', s, lexed, reads⟩ := keeps
  obtain ⟨tokens', lexed', parsed⟩ := Node.tokens_of_source parsed
  obtain rfl : tokens = tokens' := Except.ok.inj (lexed.symm.trans lexed')
  have again := Tokens.parse_of_derives (Tokens.close_of_source lexed) reads
  obtain rfl : tree' = tree := Except.ok.inj (again.symm.trans parsed)
  cases (reads.resolves lexed).within within with
  | intro read called _ =>
    simpa only [false_or] using And.intro read called

/-- An operand that stands alone is read by every rule that is looser. -/
theorem Derives.atRank_of_primary {fits : ParamList → Node → Prop} {rank : Nat}
    {s s₁ : ParseState} {node : Node} (low : 3 ≤ rank) (high : rank ≤ 19)
    (leads : 19 ≤ s.current.sign.lead) (stops : s₁.current.sign.trail < rank)
    (reads : Derives fits .primary s (.node node) s₁)
    (alone : Derives fits (.suffixes node) s₁ (.node node) s₁) :
    Derives fits (.atRank rank) s (.node node) s₁ :=
  .climb low high (le_refl _) leads stops (.operand reads alone)

/-- A source with a block that takes all arguments under one name. -/
def restSource : String := "foo \x7b |*a| b a \x7d"

/-- The tokens of a block that takes all arguments under one name. -/
def restTokens : Tokens where
  body :=
    [⟨.ident, "foo", ⟨1, 1⟩, false⟩, ⟨.op, "\x7b", ⟨1, 5⟩, true⟩, ⟨.op, "|", ⟨1, 7⟩, true⟩,
      ⟨.op, "*", ⟨1, 8⟩, false⟩, ⟨.ident, "a", ⟨1, 9⟩, false⟩, ⟨.op, "|", ⟨1, 10⟩, false⟩,
      ⟨.ident, "b", ⟨1, 12⟩, true⟩, ⟨.ident, "a", ⟨1, 14⟩, true⟩, ⟨.op, "\x7d", ⟨1, 16⟩, true⟩]
  close := ⟨.eof, "", ⟨1, 17⟩, false⟩

/-- The tree of a block that takes all arguments under one name. -/
def restTree : Node :=
  let rest := .restParam ⟨1, 8⟩ (some (.name .ident ⟨1, 9⟩ "a"))
  let params := .params ⟨1, 8⟩ [] [] (some rest) [] [] none none
  let read := .varRef ⟨1, 14⟩ (.name .ident ⟨1, 14⟩ "a")
  let call := .command ⟨1, 12⟩ (.name .ident ⟨1, 12⟩ "b") (.args ⟨1, 14⟩ [read])
  .program ⟨1, 1⟩ [.methodAddBlock ⟨1, 1⟩ (.fcall ⟨1, 1⟩ (.name .ident ⟨1, 1⟩ "foo") none)
    (.braceBlock ⟨1, 5⟩ (some (.blockVar ⟨1, 7⟩ (some params))) [call])]

theorem Derives.restTree :
    ∃ s, Derives ParamList.Admits .program (.start restTokens) (.node restTree) s := by
  let start := ParseState.start restTokens
  let inner := (start.next.next.atDepth 0).opened
  have param : Derives ParamList.Admits (.param "|") inner.next _ _ := .restParam rfl
  have params : Derives ParamList.Admits (.params "|") inner.next _ _ :=
    .params ⟨rfl, nofun⟩ (.paramsLast rfl param rfl ⟨rfl, nofun⟩ rfl)
  have bars : Derives ParamList.Admits .blockVar inner _ _ := .blockVarSome rfl params rfl
  let body := (inner.next.next.next.declaring "a").next
  have name : Derives ParamList.Admits .primary (body.next.atDepth 1) _ _ := .localVar rfl rfl rfl
  have arg : Derives ParamList.Admits .negated (body.next.atDepth 1) _ _ :=
    .atRank_of_primary (show 3 ≤ 4 by decide) (by decide) (by decide) (by decide) name
      (.suffixesDone rfl rfl rfl)
  have args : Derives ParamList.Admits (.arguments none) (body.next.atDepth 1) _ _ :=
    .arguments (.itemsLast (.argumentPlain rfl nofun arg rfl) rfl)
  have call : Derives ParamList.Admits .primary body _ _ :=
    .command rfl rfl rfl rfl args (.blockNone rfl rfl)
  have expr : Derives ParamList.Admits .expression body _ _ :=
    .atRank_of_primary (show 3 ≤ 3 by decide) (by decide) (by decide) (by decide) call
      (.suffixesDone rfl rfl rfl)
  have stmts : Derives ParamList.Admits (.stmts ["\x7d"]) body _ _ :=
    .stmtsLast rfl rfl nofun (.stmt rfl (.unassigned expr rfl rfl) rfl) nofun rfl
  have block : Derives ParamList.Admits .braceBlock start.next _ _ :=
    .braceBlock rfl ⟨rfl, nofun⟩ bars stmts rfl
  have outer : Derives ParamList.Admits .primary start _ _ :=
    .fcallBlock rfl rfl rfl rfl rfl (.blockBraces rfl block)
  have expr : Derives ParamList.Admits .expression start _ _ :=
    .atRank_of_primary (show 3 ≤ 3 by decide) (by decide) (by decide) (by decide) outer
      (.suffixesDone rfl rfl rfl)
  have stmt := Derives.stmt rfl (.unassigned expr rfl rfl) rfl
  exact ⟨_, .program (.stmtsMore rfl rfl nofun stmt nofun rfl rfl (.stmtsDone rfl)) rfl⟩

theorem Node.bindsBefore_of_source_rest :
    ∃ tree scopes call read, Node.ofSource restSource = .ok tree ∧
      KeepsParams restSource ∧ tree.Within scopes call ∧ tree.Within scopes read ∧
      call.calledName? = some "b" ∧ read.localName? = some "a" ∧
      (¬∃ scope ∈ scopes, scope.BindsBefore "b" call.pos) ∧
      ∃ scope ∈ scopes, scope.BindsBefore "a" read.pos := by
  have lexed : Tokens.ofSource restSource = .ok restTokens := rfl
  obtain ⟨s, reads⟩ := Derives.restTree
  have parsed : Node.ofSource restSource = .ok restTree := by
    simp only [Node.ofSource, lexed, Tokens.parse_of_derives rfl reads]
  have keeps : KeepsParams restSource := ⟨_, _, s, lexed, reads⟩
  have stmt : restTree.Within [restTree] _ := .child .root (.head _)
  have block : restTree.Within [restTree] _ := .child stmt (.tail _ (.head _))
  have call : restTree.Within [_, restTree] _ := .child block (.tail _ (.head _))
  have args : restTree.Within [_, restTree] _ := .child call (.tail _ (.head _))
  have read : restTree.Within [_, restTree] _ := .child args (.head _)
  exact ⟨_, _, _, _, parsed, keeps, call, read, rfl, rfl,
    (Node.bindsBefore_of_source parsed keeps call).2 _ rfl,
    (Node.bindsBefore_of_source parsed keeps read).1 _ rfl⟩

end RubyFormat
