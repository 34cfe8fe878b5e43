import Mathlib.Data.List.Chain
import RubyFormat.Draft.Tree
import RubyFormat.Visit

/-!
# The nodes above a cursor

Whatever a visitor does with a cursor, the nodes that the cursor has above it are a way down the
tree: the first is the root, and each of the others stands right below the one before it.  A `Plan`
is what a visitor can do: look at the cursor, descend with another plan for the node reached, go on
when a descent has failed, and end with a result or a fault.  `Plan.Meets` says which cursors
there are at any moment of a plan, those in the midst of a descent and of the return from it among
them.  One step of a descent pushes a node that stands right below the cursor's, or none.  By
induction over the steps, and then over the plan, every cursor that is met is `Cursor.Reached`; and
a descent that is over has put the cursor back where it was, whether it failed or not.
-/

namespace RubyFormat

/-! ## The nodes right below a node -/

namespace Draft

/-- Something stands in the content of a field: it is the content, or stands in an item of it. -/
inductive Within (value : Draft) : Draft → Prop where
  | here : Within value value
  | item {item items} : item ∈ items → Within value item → Within value (.list items)

/-- Something stands in a field of a node. -/
inductive Holds : Draft → Draft → Prop where
  | field {kind line col fields name content value} :
      (name, content) ∈ fields → Within value content →
        Holds (.node kind line col fields) value

/-- The content of a field of a node, or an item of such a content. -/
inductive HoldsDirectly : Draft → Draft → Prop where
  | content {kind line col fields name value} :
      (name, value) ∈ fields → HoldsDirectly (.node kind line col fields) value
  | item {kind line col fields name value items} :
      (name, Draft.list items) ∈ fields → value ∈ items →
        HoldsDirectly (.node kind line col fields) value

/-- A step from a node: down to what stands in one of its fields, or back where that can be. -/
def LeadsTo (back : Prop) (holder node : Draft) : Prop :=
  Holds holder node ∨ back ∧ node = holder

/-- A step down to the content of a field or to an item of one, or back where that can be. -/
def LeadsDirectlyTo (back : Prop) (holder node : Draft) : Prop :=
  HoldsDirectly holder node ∨ back ∧ node = holder

/-- No item of a list is a list, in the whole of a draft. -/
inductive Flat : Draft → Prop where
  | absent : Flat .absent
  | truth {value} : Flat (.truth value)
  | number {value} : Flat (.number value)
  | text {value} : Flat (.text value)
  | list {items} : (∀ item ∈ items, Flat item) → (∀ inner, Draft.list inner ∉ items) →
      Flat (.list items)
  | node {kind line col fields} : (∀ name content, (name, content) ∈ fields → Flat content) →
      Flat (.node kind line col fields)

/-- Whether a draft is a node. -/
def isNode : Draft → Bool
  | .node _ _ _ _ => true
  | _ => false

theorem Within.of_list {items : List Draft} {value content : Draft}
    (inside : Within (.list items) content) (mem : value ∈ items) : Within value content := by
  generalize eq : Draft.list items = list at inside
  induction inside with
  | here => exact eq ▸ .item mem .here
  | item held _ ih => exact .item held ih

theorem holds_of_field? {holder value : Draft} {name : String}
    (found : holder.field? name = some value) : Holds holder value := by
  cases holder with
  | node kind line col fields =>
    obtain ⟨⟨key, content⟩, lookup, rfl⟩ := Option.map_eq_some_iff.1 found
    exact .field (List.mem_of_find?_eq_some lookup) .here
  | _ => cases found

theorem Holds.of_list {items : List Draft} {holder value : Draft}
    (held : Holds holder (.list items)) (mem : value ∈ items) : Holds holder value := by
  generalize eq : Draft.list items = list at held
  cases held with
  | field field inside => exact .field field ((eq ▸ inside).of_list mem)

/-- What stands in a flat content is the content itself or an item of it. -/
theorem Flat.of_within {value content : Draft} (flat : content.Flat)
    (inside : Within value content) :
    value.Flat ∧ (content = value ∨ ∃ items, content = .list items ∧ value ∈ items) := by
  cases inside with
  | here => exact ⟨flat, .inl rfl⟩
  | item mem inner =>
    cases flat with
    | list flats noList =>
      cases inner with
      | here => exact ⟨flats _ mem, .inr ⟨_, rfl, mem⟩⟩
      | item => exact absurd mem (noList _)

/-- From a flat node a step leads to the content of a field, to an item of one, or back. -/
theorem Flat.of_leadsTo {back : Prop} {holder node : Draft} (flat : holder.Flat)
    (leads : LeadsTo back holder node) : node.Flat ∧ LeadsDirectlyTo back holder node := by
  obtain held | ⟨isBack, rfl⟩ := leads
  · cases held with
    | field field inside =>
      cases flat with
      | node flats =>
        obtain ⟨nodeFlat, same | ⟨items, same, mem⟩⟩ := (flats _ _ field).of_within inside
        · exact ⟨nodeFlat, .inl (.content (same ▸ field))⟩
        · exact ⟨nodeFlat, .inl (.item (same ▸ field) mem)⟩
  · exact ⟨flat, .inr ⟨isBack, rfl⟩⟩

end Draft

theorem Node.isNode_toDraft (node : Node) : node.toDraft.isNode := by
  rw [toDraft_eq]
  rfl

/-- A field of flat nodes is flat. -/
theorem Field.flat_toDraft {field : Field Draft} (flats : ∀ child ∈ field.toList, child.Flat)
    (nodes : ∀ child ∈ field.toList, child.isNode) : field.toDraft.Flat := by
  have flatList (items : List Draft) (flats : ∀ child ∈ items, child.Flat)
      (nodes : ∀ child ∈ items, child.isNode) : (Draft.list items).Flat :=
    .list flats fun inner mem => Bool.noConfusion (nodes _ mem)
  cases field with
  | text value => exact .text
  | node value => exact flats _ (List.mem_singleton_self _)
  | optional value =>
    cases value with
    | none => exact .absent
    | some value => exact flats _ (List.mem_singleton_self _)
  | list value => exact flatList value flats nodes
  | optionalList value =>
    cases value with
    | none => exact .absent
    | some value => exact flatList value flats nodes

/-- The draft of a tree is flat. -/
theorem Node.flat_toDraft (node : Node) : node.toDraft.Flat := by
  induction node using induction_children with
  | step node ih =>
    rw [toDraft_eq]
    refine .node fun name content mem => ?_
    obtain ⟨⟨key, field⟩, held, eq⟩ := List.mem_map.1 mem
    cases eq
    refine Field.flat_toDraft (fun draft inside => ?_) fun draft inside => ?_
    all_goals
      rw [Field.toList_map] at inside
      obtain ⟨child, below, rfl⟩ := List.mem_map.1 inside
    · exact ih child (List.mem_flatMap.2 ⟨_, held, below⟩)
    · exact child.isNode_toDraft

/-! ## Cursors that have come down from the root -/

namespace Cursor

/-- The cursor has come down from the root, from node to node by steps of the given kind. -/
inductive Reached (leads : Draft → Draft → Prop) (root : Draft) : Cursor → Prop where
  | root : root.isNode → Reached leads root (.ofRoot root)
  | down {cursor node} : Reached leads root cursor → leads cursor.focus node → node.isNode →
      Reached leads root (cursor.down node)

variable {leads : Draft → Draft → Prop} {back : Prop} {root : Draft} {cursor : Cursor}

theorem Reached.isNode_focus (reached : Reached leads root cursor) : cursor.focus.isNode := by
  cases reached with
  | root isNode => exact isNode
  | down _ _ isNode => exact isNode

theorem stack_down (cursor : Cursor) (node : Draft) :
    (cursor.down node).stack = cursor.stack ++ [node] := by
  simp [stack, down]

theorem getLast?_stack (cursor : Cursor) : cursor.stack.getLast? = some cursor.focus := by
  simp [stack]

theorem Reached.head?_stack (reached : Reached leads root cursor) :
    cursor.stack.head? = some root := by
  induction reached with
  | root => rfl
  | down _ _ _ ih =>
    rw [stack_down, List.head?_append, ih]
    rfl

theorem Reached.isNode_stack (reached : Reached leads root cursor) :
    ∀ node ∈ cursor.stack, node.isNode := by
  induction reached with
  | root isNode => exact List.forall_mem_singleton.2 isNode
  | down _ _ isNode ih =>
    rw [stack_down]
    exact List.forall_mem_append.2 ⟨ih, List.forall_mem_singleton.2 isNode⟩

/-- Of the nodes from the root to a cursor, each leads to the next. -/
theorem Reached.isChain_stack (reached : Reached leads root cursor) :
    cursor.stack.IsChain leads := by
  induction reached with
  | root => exact .singleton root
  | @down cursor node _ step _ ih =>
    rw [stack_down]
    refine List.isChain_append.2 ⟨ih, .singleton node, fun last isLast next isNext => ?_⟩
    rw [getLast?_stack] at isLast
    cases isLast
    cases isNext
    exact step

/-- One node further up, a cursor has come down from the root as well. -/
theorem Reached.up (reached : Reached leads root cursor) : Reached leads root cursor.up := by
  cases reached with
  | root isNode => exact .root isNode
  | down reached _ _ => exact reached

theorem Reached.rise (reached : Reached leads root cursor) (count : Nat) :
    Reached leads root (cursor.rise count) := by
  induction count generalizing cursor with
  | zero => exact reached
  | succ count ih => exact ih reached.up

/-- In a flat tree each step leads to the content of a field, to an item of one, or back. -/
theorem Reached.of_flat (flat : root.Flat) (reached : Reached (Draft.LeadsTo back) root cursor) :
    cursor.focus.Flat ∧ Reached (Draft.LeadsDirectlyTo back) root cursor := by
  induction reached with
  | root isNode => exact ⟨flat, .root isNode⟩
  | down _ leads isNode ih =>
    obtain ⟨focusFlat, direct⟩ := ih.1.of_leadsTo leads
    exact ⟨focusFlat, .down ih.2 direct isNode⟩

end Cursor

/-! ## Descents -/

/--
What a descent has reached without a new node under the cursor: the node there, something else in a
field of it, a content in which no node stands, a place, a method of one of these, or something that
belongs to no single object.
-/
inductive Item.Ahead (focus : Draft) : Item → Prop where
  | focus : Ahead focus (.content focus)
  | held {value} : focus.Holds value → value.isNode = false → Ahead focus (.content value)
  | nodeless {value} : (∀ inner : Draft, inner.Within value → inner.isNode = false) →
      Ahead focus (.content value)
  | place {line col} : Ahead focus (.place line col)
  | method {sort owner} : Ahead focus owner → Ahead focus (.method sort owner)
  | shared {typeName} : Ahead focus (.shared typeName)

/-- What a step leads to is a node right below the cursor's, or it is ahead of the same node. -/
def Item.Next (back : Prop) (focus : Draft) : Item → Prop
  | .content (.node kind line col fields) => focus.LeadsTo back (.node kind line col fields)
  | item => Item.Ahead focus item

/-- The step from a method back to what it is bound to. -/
def Step.owner : Step := .field "__self__"

namespace Item

variable {back : Prop} {focus : Draft} {item next : Item}

theorem Next.ahead (next : Next back focus item)
    (notNode : ∀ kind line col fields, item ≠ .content (.node kind line col fields)) :
    Ahead focus item := by
  unfold Next at next
  split at next
  · exact absurd rfl (notNode _ _ _ _)
  · exact next

theorem next_of_holds {value : Draft} (held : focus.Holds value) :
    Next back focus (.content value) := by
  cases value with
  | node kind line col fields => exact .inl held
  | _ => exact .held held rfl

theorem next_of_nodeless {value : Draft}
    (nodeless : ∀ inner : Draft, inner.Within value → inner.isNode = false) :
    Next back focus (.content value) := by
  cases value with
  | node => cases nodeless _ .here
  | _ => exact .nodeless nodeless

theorem ahead_number (value : Int) : Ahead focus (.content (.number value)) :=
  .nodeless fun _ inside => by cases inside; rfl

theorem ahead_texts (values : List String) : Ahead focus (.content (.list (values.map .text))) := by
  refine .nodeless fun inner inside => ?_
  cases inside with
  | here => rfl
  | item mem inside =>
    obtain ⟨value, -, rfl⟩ := List.mem_map.1 mem
    cases inside
    rfl

theorem ahead_part? {name : String} {value : Int} (found : part? name value = some next) :
    ∃ part, next = .content (.number part) := by
  unfold part? at found
  grind

/-- Back at the owner of a method, the node under the cursor has been reached once more. -/
theorem Ahead.next_of_back (isBack : back) (ahead : Ahead focus item) : Next back focus item := by
  cases ahead with
  | focus =>
    cases focus with
    | node kind line col fields => exact .inr ⟨isBack, rfl⟩
    | _ => exact .focus
  | held held _ => exact next_of_holds held
  | nodeless nodeless => exact next_of_nodeless nodeless
  | place => exact .place
  | method owner => exact .method owner
  | shared => exact .shared

/-- What an item has of its own is a node right below the cursor's, or stays ahead of that. -/
theorem Ahead.next_of_own? {name : String} (isBack : Step.field name = .owner → back)
    (ahead : Ahead focus item) (found : item.own? name = some next) : Next back focus next := by
  cases item with
  | content value =>
    cases value with
    | node kind line col fields =>
      have isFocus : focus = .node kind line col fields := by
        cases ahead with
        | focus => rfl
        | held _ notNode => cases notNode
        | nodeless nodeless => cases nodeless _ .here
      rw [own?] at found
      split_ifs at found with isPlace isNames isOthers
      · cases found
        exact .place
      · cases found
        exact ahead_texts _
      · cases found
        exact .method ahead
      · obtain ⟨value, held, rfl⟩ := Option.map_eq_some_iff.1 found
        exact next_of_holds (isFocus ▸ Draft.holds_of_field? held)
    | number value | truth value =>
      obtain ⟨part, rfl⟩ := ahead_part? found
      exact ahead_number part
    | _ => cases found
  | place line col =>
    rw [own?] at found
    split_ifs at found <;> cases found
    · exact ahead_number line
    · exact ahead_number col
    · exact ahead_texts ["line", "col"]
  | method sort owner =>
    rw [own?] at found
    split_ifs at found with isOwner
    cases found
    cases ahead with
    | method ahead => exact ahead.next_of_back (isBack (isOwner ▸ rfl))
  | shared typeName => cases found

theorem Ahead.next_ofAttribute (ahead : Ahead focus item) (common : Attribute) :
    Next back focus (item.ofAttribute common) := by
  cases common with
  | method sort => exact .method ahead
  | shared typeName => exact .shared

theorem Ahead.next_of_field? {name : String} (isBack : Step.field name = .owner → back)
    (ahead : Ahead focus item) (found : item.field? name = some next) : Next back focus next := by
  obtain own | ⟨-, found⟩ := Option.or_eq_some_iff.1 found
  · exact ahead.next_of_own? isBack own
  · obtain ⟨common, -, rfl⟩ := Option.map_eq_some_iff.1 found
    exact ahead.next_ofAttribute common

theorem mem_of_item? {items : List Draft} {value : Draft} {index : Int}
    (found : item? items index = some value) : value ∈ items := by
  unfold item? at found
  split at found
  · split at found
    · cases found
    · exact List.mem_of_getElem? found
  · exact List.mem_of_getElem? found

/-- A step leads to a node right below the cursor's, or stays ahead of that. -/
theorem Ahead.step {step : Step} (isBack : step = .owner → back) (isNode : focus.isNode)
    (ahead : Ahead focus item) (found : item.step step = .ok next) : Next back focus next := by
  cases step with
  | field name =>
    rw [Item.step] at found
    split at found <;> cases found
    next eq => exact ahead.next_of_field? isBack eq
  | index index =>
    cases item with
    | content value =>
      cases value with
      | list items =>
        rw [Item.step] at found
        split at found <;> cases found
        next eq =>
          have mem := mem_of_item? eq
          cases ahead with
          | focus => cases isNode
          | held held _ => exact next_of_holds (held.of_list mem)
          | nodeless nodeless =>
            exact next_of_nodeless fun inner inside => nodeless inner (.item mem inside)
      | _ => cases found
    | _ => cases found

end Item

namespace Cursor

variable {back : Prop} {root : Draft} {cursor : Cursor} {item : Item} {way : List Step}
  {pushed : Nat}

/-- As far as a descent goes, the cursor comes down from the root. -/
theorem Reached.descendFrom (reached : Reached (Draft.LeadsTo back) root cursor)
    (ahead : item.Ahead cursor.focus) {steps : List Step} (isBack : Step.owner ∈ steps → back) :
    Reached (Draft.LeadsTo back) root (cursor.descendFrom way pushed item steps).cursor := by
  induction steps generalizing cursor item pushed with
  | nil =>
    unfold Cursor.descendFrom
    split <;> exact reached
  | cons step rest ih =>
    have first : step = .owner → back := fun isOwner => isBack (isOwner ▸ List.mem_cons_self)
    have others : .owner ∈ rest → back := fun mem => isBack (List.mem_cons_of_mem step mem)
    unfold Cursor.descendFrom
    split
    · exact reached
    next kind line col fields found =>
      have leads := ahead.step first reached.isNode_focus found
      exact ih (.down reached leads rfl) .focus others
    next next notNode found =>
      have still := (ahead.step first reached.isNode_focus found).ahead notNode
      exact ih reached still others

theorem Reached.descend (reached : Reached (Draft.LeadsTo back) root cursor)
    (isBack : .owner ∈ way → back) :
    Reached (Draft.LeadsTo back) root (cursor.descend way).cursor :=
  reached.descendFrom .focus isBack

/-- As many nodes up as were pushed, the cursor is where the descent began. -/
theorem rise_descendFrom (cursor : Cursor) (pushed : Nat) (item : Item) (steps : List Step) :
    (cursor.descendFrom way pushed item steps).cursor.rise
      (cursor.descendFrom way pushed item steps).pushed = cursor.rise pushed := by
  induction steps generalizing cursor item pushed with
  | nil =>
    unfold descendFrom
    split <;> rfl
  | cons step rest ih =>
    unfold descendFrom
    split
    · rfl
    · exact ih (cursor.down _) (pushed + 1) _
    · exact ih cursor pushed _

@[simp]
theorem rise_descend (cursor : Cursor) (way : List Step) :
    (cursor.descend way).cursor.rise (cursor.descend way).pushed = cursor :=
  rise_descendFrom cursor 0 _ way

/-- A way leads where a descent ends, unless that finds a fault. -/
def Descent.result (descent : Descent) : Except Fault Cursor :=
  match descent.fault with
  | some fault => .error fault
  | none => .ok descent.cursor

theorem walk_eq_result (cursor : Cursor) (pushed : Nat) (item : Item) (steps : List Step) :
    walk way cursor item steps = (cursor.descendFrom way pushed item steps).result := by
  induction steps generalizing cursor item pushed with
  | nil =>
    cases item with
    | content value => cases value <;> rfl
    | _ => rfl
  | cons step rest ih =>
    rw [walk, descendFrom]
    cases item.step step with
    | error fault => rfl
    | ok next =>
      cases next with
      | content value =>
        cases value with
        | node kind line col fields => exact ih _ _ _
        | _ => exact ih _ _ _
      | _ => exact ih _ _ _

theorem enter_eq_result (cursor : Cursor) (way : List Step) :
    cursor.enter way = (cursor.descend way).result :=
  walk_eq_result cursor 0 _ way

end Cursor

/-! ## Visits -/

namespace Visit

/-- What comes out of a visit. -/
def outcome (visit : Visit α) (cursor : Cursor) : Except Fault α :=
  match visit cursor with
  | .ok result _ => .ok result
  | .error fault _ => .error fault

/-- The cursor that a visit leaves behind, whether it fails or not. -/
def after (visit : Visit α) (cursor : Cursor) : Cursor :=
  match visit cursor with
  | .ok _ after => after
  | .error _ after => after

theorem attempt_apply (visit : Visit α) (cursor : Cursor) :
    visit.attempt cursor = .ok (visit.outcome cursor) (visit.after cursor) := by
  unfold attempt outcome after
  cases visit cursor <;> rfl

/-- A call fails as its way does, and otherwise comes out as the visit of the node reached does. -/
theorem outcome_call (way : List Step) (visit : Visit α) (cursor : Cursor) :
    (call way visit).outcome cursor = (cursor.enter way).bind visit.outcome := by
  rw [Cursor.enter_eq_result, outcome, call]
  obtain ⟨reached, pushed, _ | fault⟩ := cursor.descend way
  · change _ = visit.outcome reached
    rw [under, outcome]
    cases visit reached <;> rfl
  · rfl

/-- A call puts the cursor back, if the visit of the node reached does. -/
theorem after_call {visit : Visit α} (still : ∀ cursor, visit.after cursor = cursor)
    (way : List Step) (cursor : Cursor) : (call way visit).after cursor = cursor := by
  have back := cursor.rise_descend way
  rw [after, call]
  generalize cursor.descend way = descent at back ⊢
  obtain ⟨reached, pushed, _ | fault⟩ := descent
  · have stays : visit.after reached = reached := still reached
    rw [after] at stays
    rw [under]
    cases eq : visit reached with
    | ok result after =>
      rw [eq] at stays
      cases stays
      exact back
    | error fault after =>
      rw [eq] at stays
      cases stays
      exact back
  · exact back

end Visit

/-! ## Plans -/

/--
What a visitor can do with a cursor: look at it, descend with a plan for the node reached and go on
with what comes out of that, and end with a result or a fault.
-/
inductive Plan : Type → Type 1 where
  | done {α : Type} (result : α) : Plan α
  | fail {α : Type} (fault : Fault) : Plan α
  | look {α : Type} (next : Cursor → Plan α) : Plan α
  | call {α β : Type} (way : List Step) (inside : Plan β) (next : Except Fault β → Plan α) : Plan α

namespace Plan

/-- The visit that follows a plan. -/
def visit : Plan α → Visit α
  | done result => pure result
  | fail fault => throw fault
  | look next => do (next (← get)).visit
  | call way inside next => do (next (← (Visit.call way inside.visit).attempt)).visit

/-- A plan that goes on with the result of another. -/
def bind (next : α → Plan β) : Plan α → Plan β
  | done result => next result
  | fail fault => fail fault
  | look follow => look fun cursor => (follow cursor).bind next
  | call way inside follow => call way inside fun outcome => (follow outcome).bind next

/-- The plan that ends with what has come out. -/
def ofExcept : Except Fault α → Plan α
  | .ok result => done result
  | .error fault => fail fault

/-- A descent that fails the plan when it fails. -/
def descend (way : List Step) (inside : Plan α) : Plan α :=
  call way inside ofExcept

/-- The plan for the node in a field, or for one of those in a field. -/
def child (name : String) (index : Option Int) (inside : Plan α) : Plan α :=
  descend (Visit.wayTo name index) inside

/-- The plan for the nodes in a field at the given indices, one after the other. -/
def childrenAt (name : String) (inside : Plan α) : List Nat → Plan (List α)
  | [] => done []
  | index :: rest =>
      (child name (some index) inside).bind fun result =>
        (childrenAt name inside rest).bind fun results => done (result :: results)

/-- The plan for each node in a field. -/
def children (name : String) (inside : Plan α) : Plan (List α) :=
  look fun cursor =>
    (ofExcept (cursor.count name)).bind fun count => childrenAt name inside (List.range count)

/-- The plan for the document of the node under the cursor. -/
def layout (options : Options) : Plan Doc :=
  look fun cursor =>
    (ofExcept (cursor.inspect options).verdict).bind fun _ => done (cursor.layout options)

/-- The plan for the documents of the nodes in a field. -/
def layouts (options : Options) (name : String) : Plan (List Doc) :=
  (children name (look fun cursor =>
    (ofExcept (cursor.inspect options)).bind fun faults =>
      done (cursor.layout options, faults))).bind fun visited =>
    (ofExcept (Inspection.verdict (.ok (visited.flatMap (·.2))))).bind fun _ =>
      done (visited.map (·.1))

/-- After a descent a plan goes on with what came out of it and the cursor it left. -/
theorem visit_call_apply (way : List Step) (inside : Plan β) (next : Except Fault β → Plan α)
    (cursor : Cursor) :
    (call way inside next).visit cursor =
      (next ((Visit.call way inside.visit).outcome cursor)).visit
        ((Visit.call way inside.visit).after cursor) := by
  change EStateM.bind _ _ cursor = _
  rw [EStateM.bind, Visit.attempt_apply]

theorem visit_descend (way : List Step) (inside : Plan α) :
    (descend way inside).visit = Visit.call way inside.visit := by
  funext cursor
  rw [descend, visit_call_apply, Visit.outcome, Visit.after]
  cases Visit.call way inside.visit cursor <;> rfl

theorem visit_bind (plan : Plan α) (next : α → Plan β) :
    (plan.bind next).visit = plan.visit >>= fun result => (next result).visit := by
  induction plan with
  | done result => rfl
  | fail fault => rfl
  | look follow ih =>
    simp only [bind, visit, ih, bind_assoc]
  | call way inside follow _ ih =>
    simp only [bind, visit, ih, bind_assoc]

theorem visit_ofExcept (result : Except Fault α) :
    (ofExcept result).visit = MonadExcept.ofExcept result := by
  cases result <;> rfl

theorem visit_child (name : String) (index : Option Int) (inside : Plan α) :
    (child name index inside).visit = Visit.child name index inside.visit :=
  visit_descend _ inside

theorem visit_childrenAt (name : String) (inside : Plan α) (indices : List Nat) :
    (childrenAt name inside indices).visit =
      indices.mapM fun index => Visit.child name (some (Int.ofNat index)) inside.visit := by
  induction indices with
  | nil => rfl
  | cons index rest ih =>
    rw [childrenAt, visit_bind, visit_child, List.mapM_cons]
    simp only [visit_bind, ih]
    rfl

theorem visit_children (name : String) (inside : Plan α) :
    (children name inside).visit = Visit.children name inside.visit := by
  simp only [children, visit, visit_bind, visit_ofExcept, visit_childrenAt]
  rfl

theorem visit_layout (options : Options) : (layout options).visit = Visit.layout options := by
  simp only [layout, visit, visit_bind, visit_ofExcept]
  rfl

theorem visit_layouts (options : Options) (name : String) :
    (layouts options name).visit = Visit.layouts options name := by
  simp only [layouts, visit, visit_bind, visit_ofExcept, visit_children]
  rfl

/-- A plan leaves the cursor where it was, whether it fails or not. -/
theorem after_visit (plan : Plan α) (cursor : Cursor) : plan.visit.after cursor = cursor := by
  induction plan generalizing cursor with
  | done result => rfl
  | fail fault => rfl
  | look next ih => exact ih cursor cursor
  | call way inside next insideIh nextIh =>
    rw [Visit.after, visit_call_apply, Visit.after_call insideIh]
    exact nextIh _ cursor

/--
The cursors that there are in the course of a plan.  In a descent they are those after each step of
the way, then those of the plan for the node reached, and then those on the way up.
-/
inductive Meets : {α : Type} → Plan α → Cursor → Cursor → Prop where
  | here {α} {plan : Plan α} {cursor} : Meets plan cursor cursor
  | look {α} {next : Cursor → Plan α} {cursor met} :
      Meets (next cursor) cursor met → Meets (.look next) cursor met
  | walked {α β way} {inside : Plan β} {next : Except Fault β → Plan α} {cursor} (count : Nat) :
      Meets (.call way inside next) cursor (cursor.descend (way.take count)).cursor
  | stopped {α β way} {inside : Plan β} {next : Except Fault β → Plan α} {cursor} (count : Nat) :
      (cursor.descend way).fault.isSome → count ≤ (cursor.descend way).pushed →
        Meets (.call way inside next) cursor ((cursor.descend way).cursor.rise count)
  | inside {α β way} {inside : Plan β} {next : Except Fault β → Plan α} {cursor met} :
      (cursor.descend way).fault = none → Meets inside (cursor.descend way).cursor met →
        Meets (.call way inside next) cursor met
  | left {α β way} {inside : Plan β} {next : Except Fault β → Plan α} {cursor} (count : Nat) :
      (cursor.descend way).fault = none → count ≤ (cursor.descend way).pushed →
        Meets (.call way inside next) cursor
          ((inside.visit.after (cursor.descend way).cursor).rise count)
  | next {α β way} {inside : Plan β} {next : Except Fault β → Plan α} {cursor met} :
      Meets (next ((Visit.call way inside.visit).outcome cursor))
        ((Visit.call way inside.visit).after cursor) met →
        Meets (.call way inside next) cursor met

/-- Some way that a plan can take names the step back from a method. -/
inductive NamesOwner : {α : Type} → Plan α → Prop where
  | look {α} {next : Cursor → Plan α} (cursor : Cursor) :
      NamesOwner (next cursor) → NamesOwner (.look next)
  | way {α β way} {inside : Plan β} {next : Except Fault β → Plan α} :
      .owner ∈ way → NamesOwner (.call way inside next)
  | inside {α β way} {inside : Plan β} {next : Except Fault β → Plan α} :
      NamesOwner inside → NamesOwner (.call way inside next)
  | next {α β way} {inside : Plan β} {next : Except Fault β → Plan α} (outcome : Except Fault β) :
      NamesOwner (next outcome) → NamesOwner (.call way inside next)

/-- Every cursor in the course of a plan has come down from the root. -/
theorem Meets.reached {back : Prop} {root : Draft} {plan : Plan α} {cursor met : Cursor}
    (meets : plan.Meets cursor met) (isBack : plan.NamesOwner → back)
    (reached : cursor.Reached (Draft.LeadsTo back) root) :
    met.Reached (Draft.LeadsTo back) root := by
  induction meets with
  | here => exact reached
  | look _ ih => exact ih (fun names => isBack (.look _ names)) reached
  | walked count =>
    exact reached.descend fun mem => isBack (.way (List.mem_of_mem_take mem))
  | stopped count _ _ => exact (reached.descend fun mem => isBack (.way mem)).rise count
  | inside _ _ ih =>
    exact ih (fun names => isBack (.inside names)) (reached.descend fun mem => isBack (.way mem))
  | left count _ _ =>
    rw [after_visit]
    exact (reached.descend fun mem => isBack (.way mem)).rise count
  | next _ ih =>
    rw [Visit.after_call (after_visit _)] at ih
    exact ih (fun names => isBack (.next _ names)) reached

end Plan

/--
In the course of any plan the nodes above the cursor begin with the root, and each of the others
stands in a field of the one before it; only a plan that names the way back from a method can find
a node below itself.  In a flat tree, such as that of a source, what stands in a field is its
content or an item of its content.  A descent that is over has left the cursor as it was, whether it
failed or not, and comes out as the visit of the node that the way leads to.
-/
theorem ancestry_of_meets {root : Draft} (isNode : root.isNode) :
    (∀ {α : Type} (plan : Plan α) (met : Cursor), plan.Meets (.ofRoot root) met →
      met.stack.head? = some root ∧ (∀ node ∈ met.stack, node.isNode) ∧
        met.stack.IsChain (Draft.LeadsTo plan.NamesOwner) ∧
        (root.Flat → met.stack.IsChain (Draft.LeadsDirectlyTo plan.NamesOwner))) ∧
    (∀ tree : Node, tree.toDraft.isNode ∧ tree.toDraft.Flat) ∧
    (∀ {α : Type} (plan : Plan α) (cursor : Cursor), plan.visit.after cursor = cursor ∧
      (∀ way, (Visit.call way plan.visit).after cursor = cursor ∧
        (Visit.call way plan.visit).outcome cursor =
          (cursor.enter way).bind plan.visit.outcome) ∧
      (∀ name index, (Visit.child name index plan.visit).after cursor = cursor) ∧
      (∀ name, (Visit.children name plan.visit).after cursor = cursor)) ∧
    ∀ (options : Options) (name : String) (cursor : Cursor),
      (∀ index, (Visit.child name index (Visit.layout options)).after cursor = cursor) ∧
        (Visit.layouts options name).after cursor = cursor := by
  refine ⟨fun plan met meets => ?_, fun tree => ⟨tree.isNode_toDraft, tree.flat_toDraft⟩,
    fun plan cursor => ⟨plan.after_visit cursor, fun way => ?_, fun name index => ?_,
      fun name => ?_⟩, fun options name cursor => ⟨fun index => ?_, ?_⟩⟩
  · have reached := meets.reached id (.root isNode)
    exact ⟨reached.head?_stack, reached.isNode_stack, reached.isChain_stack,
      fun flat => (reached.of_flat flat).2.isChain_stack⟩
  · exact ⟨Visit.after_call plan.after_visit way cursor, Visit.outcome_call way plan.visit cursor⟩
  · rw [← Plan.visit_child]
    exact Plan.after_visit _ cursor
  · rw [← Plan.visit_children]
    exact Plan.after_visit _ cursor
  · rw [← Plan.visit_layout, ← Plan.visit_child]
    exact Plan.after_visit _ cursor
  · rw [← Plan.visit_layouts]
    exact Plan.after_visit _ cursor

/-- An item of an array in an array is met below both, though the plan fails there. -/
theorem ancestry_of_meets_array :
    let one : Draft := .node (.literal .int) 1 3 [("raw", .text "1")]
    let array : Draft := .node .array 1 2 [("elements", .list [one])]
    let root : Draft := .node .array 1 1 [("elements", .list [.absent, array])]
    let plan : Plan Unit :=
      .descend [.field "elements", .index (-1), .field "elements", .index 0] (.fail .outOfRange)
    root.isNode ∧ plan.Meets (.ofRoot root) ⟨one, [array, root]⟩ ∧
      [root, array, one].IsChain (Draft.LeadsTo plan.NamesOwner) ∧
      plan.visit.after (.ofRoot root) = .ofRoot root := by
  intro one array root plan
  have meets : plan.Meets (.ofRoot root) ⟨one, [array, root]⟩ := .inside (by decide +kernel) .here
  have ancestry := ancestry_of_meets (show root.isNode from rfl)
  exact ⟨rfl, meets, (ancestry.1 plan _ meets).2.2.1, (ancestry.2.2.1 plan _).1⟩

/--
A node need not stand directly below the one above it: in a tree that no source has, an item of a
list can be a list, and a method of any node leads back to the node.
-/
theorem stack_not_held_directly :
    let one : Draft := .node (.literal .int) 1 1 [("raw", .text "1")]
    let array : Draft := .node .array 1 1 [("elements", .list [.list [one]])]
    ((Plan.descend [.field "elements", .index 0, .index 0] (.done ())).Meets (.ofRoot array)
      ⟨one, [array]⟩ ∧ ¬ (Cursor.mk one [array]).stack.IsChain Draft.HoldsDirectly) ∧
    (Plan.descend [.field "__init__", .field "__self__"] (.done ())).Meets (.ofRoot one)
      ⟨one, [one]⟩ ∧ ¬ (Cursor.mk one [one]).stack.IsChain Draft.HoldsDirectly := by
  refine ⟨⟨.inside (by decide +kernel) .here, fun chain => ?_⟩,
    .inside (by decide +kernel) .here, fun chain => ?_⟩
  · cases List.isChain_pair.1 chain with
    | content mem => simp at mem
    | item mem inside => simp_all
  · cases List.isChain_pair.1 chain with
    | content mem => simp at mem
    | item mem inside => simp at mem

end RubyFormat
