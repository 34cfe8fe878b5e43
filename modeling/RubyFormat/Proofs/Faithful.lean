import Mathlib.Data.List.Basic
import Mathlib.Data.List.Nodup
import Mathlib.Tactic.TFAE
import RubyFormat.Proofs.Places

/-!
# Dumps tell trees apart

Dumps are compared as dictionaries are: the entries of an object count in any order.  A dump names
the kind of each node, and a kind has each of its fields once, so the entries of two alike dumps can
be paired off again.  What is absent, an empty list, a text and a node are dumped as data of
different sorts.  Hence nodes with alike dumps are the same, places included.
-/

namespace RubyFormat

namespace Data

/-- The value of a key. -/
def valueOf? (key : String) (entries : List (String × Data)) : Option Data :=
  (entries.find? (·.1 == key)).map (·.2)

mutual

/-- Whether data is the same when the entries of objects count in any order. -/
def alike : Data → Data → Bool
  | .null, .null => true
  | .bool value, .bool other => value == other
  | .int value, .int other => value == other
  | .text value, .text other => value == other
  | .list items, .list others => alikeItems items others
  | .object entries, .object others =>
      entries.length == others.length && alikeEntries entries others
  | _, _ => false
termination_by structural data => data

/-- Whether the items of two lists are the same, one by one. -/
def alikeItems : List Data → List Data → Bool
  | [], [] => true
  | item :: items, other :: others => alike item other && alikeItems items others
  | _, _ => false
termination_by structural items => items

/-- Whether each entry has one of the same key with the same value among the others. -/
def alikeEntries : List (String × Data) → List (String × Data) → Bool
  | [], _ => true
  | (key, value) :: entries, others =>
      (match valueOf? key others with
        | some other => alike value other
        | none => false) && alikeEntries entries others
termination_by structural entries => entries

end

theorem alikeEntries_iff {entries others : List (String × Data)} :
    alikeEntries entries others = true ↔
      ∀ entry ∈ entries, ∃ other,
        valueOf? entry.1 others = some other ∧ alike entry.2 other = true := by
  induction entries with
  | nil => simp [alikeEntries]
  | cons entry entries ih =>
      obtain ⟨key, value⟩ := entry
      rw [alikeEntries, Bool.and_eq_true, List.forall_mem_cons, ih]
      refine and_congr_left fun _ => ?_
      cases valueOf? key others <;> simp

/-- The value of a key that only one entry has. -/
theorem valueOf?_of_mem {entries : List (String × Data)} (single : (entries.map (·.1)).Nodup)
    {key : String} {value : Data} (mem : (key, value) ∈ entries) :
    valueOf? key entries = some value := by
  induction entries with
  | nil => cases mem
  | cons entry entries ih =>
      rw [List.map_cons, List.nodup_cons] at single
      rcases List.mem_cons.1 mem with rfl | mem
      · simp [valueOf?]
      · have other : entry.1 ≠ key := fun same =>
          single.1 (same ▸ List.mem_map.2 ⟨_, mem, rfl⟩)
        have later := ih single.2 mem
        simpa [valueOf?, other] using later

end Data

namespace Draft

@[simp]
theorem dumpItems_eq_map (places : Bool) (items : List Draft) :
    dumpItems places items = items.map (dump places) := by
  induction items with
  | nil => rfl
  | cons item rest ih => simp [dumpItems, ih]

@[simp]
theorem dumpFields_eq_map (places : Bool) (fields : List (String × Draft)) :
    dumpFields places fields = fields.map fun field => (field.1, dump places field.2) := by
  induction fields with
  | nil => rfl
  | cons field rest ih => simp [dumpFields, ih]

theorem toData_list (items : List Draft) : (list items).toData = .list (items.map toData) := by
  change Data.list (dumpItems true items) = _
  rw [dumpItems_eq_map]
  rfl

theorem toData_node (kind : Kind) (line col : Int) (fields : List (String × Draft)) :
    (node kind line col fields).toData =
      .object (("_type", .text kind.tag) :: ("pos", .list [.int line, .int col]) ::
        fields.map fun field => (field.1, field.2.toData)) := by
  change Data.object (_ :: _ ++ dumpFields true fields) = _
  rw [dumpFields_eq_map]
  rfl

/-- Every node of a draft has the fields of its kind, whatever they hold. -/
inductive Named : Draft → Prop where
  | absent : Named .absent
  | truth (value : Bool) : Named (.truth value)
  | number (value : Int) : Named (.number value)
  | text (value : String) : Named (.text value)
  | list {items : List Draft} (each : ∀ item ∈ items, Named item) : Named (.list items)
  | node {kind : Kind} {line col : Int} {fields : List (String × Draft)}
      (names : fields.map (·.1) = kind.schema.map (·.1)) (each : ∀ field ∈ fields, Named field.2) :
      Named (.node kind line col fields)

end Draft

/-- A kind has each of its fields once, and none that a dump has besides them. -/
theorem Kind.nodup_names (kind : Kind) : ("_type" :: "pos" :: kind.schema.map (·.1)).Nodup := by
  rcases kind with (_ | _ | _ | _ | _ | _ | _ | _) | (_ | _ | _ | _) <;> decide

namespace Draft

/-- The keys in the dump of a node are all different. -/
theorem nodup_keys {kind : Kind} {fields : List (String × Draft)} (tag place : Data)
    (names : fields.map (·.1) = kind.schema.map (·.1)) :
    ((("_type", tag) :: ("pos", place) ::
      fields.map fun field => (field.1, field.2.toData)).map (·.1)).Nodup := by
  have keys : (("_type", tag) :: ("pos", place) ::
      fields.map fun field => (field.1, field.2.toData)).map (·.1) =
      "_type" :: "pos" :: kind.schema.map (·.1) := by
    rw [← names]
    simp [Function.comp_def]
  exact keys ▸ kind.nodup_names

/-- A draft that no dump confuses with another draft. -/
def ToldApart (draft : Draft) : Prop :=
  ∀ other : Draft, other.Named → draft.toData.alike other.toData = true → draft = other

theorem items_eq_of_alike {items others : List Draft} (apart : ∀ item ∈ items, item.ToldApart)
    (named : ∀ other ∈ others, other.Named)
    (alike : Data.alikeItems (items.map toData) (others.map toData) = true) : items = others := by
  induction items generalizing others with
  | nil =>
      cases others with
      | nil => rfl
      | cons other others => cases alike
  | cons item items ih =>
      cases others with
      | nil => cases alike
      | cons other others =>
          obtain ⟨first, rest⟩ := Bool.and_eq_true_iff.1 alike
          rw [List.forall_mem_cons] at apart named
          rw [apart.1 other named.1 first, ih apart.2 named.2 rest]

/-- Fields of the same names are the same if contents of the same name are. -/
theorem fields_eq_of_alike {fields others : List (String × Draft)}
    (names : fields.map (·.1) = others.map (·.1)) (apart : ∀ field ∈ fields, field.2.ToldApart)
    (named : ∀ other ∈ others, other.2.Named)
    (alike : ∀ field ∈ fields, ∀ other ∈ others, field.1 = other.1 →
      field.2.toData.alike other.2.toData = true) :
    fields = others := by
  induction fields generalizing others with
  | nil =>
      cases others with
      | nil => rfl
      | cons other others => cases names
  | cons field fields ih =>
      cases others with
      | nil => cases names
      | cons other others =>
          obtain ⟨name, names⟩ := List.cons.inj names
          have first := alike field List.mem_cons_self other List.mem_cons_self name
          rw [List.forall_mem_cons] at apart named
          have content : field.2 = other.2 := apart.1 other.2 named.1 first
          have rest := ih names apart.2 named.2 fun field mem other mem' =>
            alike field (List.mem_cons_of_mem _ mem) other (List.mem_cons_of_mem _ mem')
          rw [Prod.ext name content, rest]

/-- The kind, the place and the fields of a node can be told from its dump. -/
theorem node_eq_of_alike {kind other : Kind} {line col line' col' : Int}
    {fields others : List (String × Draft)}
    (names : fields.map (·.1) = kind.schema.map (·.1))
    (names' : others.map (·.1) = other.schema.map (·.1))
    (apart : ∀ field ∈ fields, field.2.ToldApart) (named : ∀ other ∈ others, other.2.Named)
    (alike :
      (node kind line col fields).toData.alike (node other line' col' others).toData = true) :
    node kind line col fields = node other line' col' others := by
  rw [toData_node, toData_node, Data.alike, Bool.and_eq_true, Data.alikeEntries_iff,
    List.forall_mem_cons, List.forall_mem_cons] at alike
  obtain ⟨-, tag, place, contents⟩ := alike
  have sameKind : kind = other := by
    obtain ⟨found, isTag, same⟩ := tag
    cases isTag
    have known := Kind.ofTag?_tag kind
    rw [beq_iff_eq.1 same, Kind.ofTag?_tag] at known
    exact (Option.some.inj known).symm
  obtain ⟨sameLine, sameCol⟩ : line = line' ∧ col = col' := by
    obtain ⟨found, isPlace, same⟩ := place
    cases isPlace
    simpa [Data.alike, Data.alikeItems] using same
  have keys := nodup_keys (.text other.tag) (.list [.int line', .int col']) names'
  subst sameKind sameLine sameCol
  have sameFields : fields = others := by
    refine fields_eq_of_alike (names.trans names'.symm) apart named
      fun field mem other mem' sameName => ?_
    obtain ⟨found, isValue, same⟩ := contents _ (List.mem_map.2 ⟨field, mem, rfl⟩)
    have there : (other.1, other.2.toData) ∈ others.map fun field => (field.1, field.2.toData) :=
      List.mem_map.2 ⟨other, mem', rfl⟩
    rw [sameName, Data.valueOf?_of_mem keys
      (List.mem_cons_of_mem _ (List.mem_cons_of_mem _ there))] at isValue
    cases isValue
    exact same
  rw [sameFields]

/-- Dumps tell apart whatever has the fields of its kind. -/
theorem Named.toldApart {draft : Draft} (named : draft.Named) : draft.ToldApart := by
  induction named with
  | absent =>
      intro other named alike
      cases named with
      | absent => rfl
      | _ => cases alike
  | truth value =>
      intro other named alike
      cases named with
      | truth other => exact congrArg Draft.truth (beq_iff_eq.1 alike)
      | _ => cases alike
  | number value =>
      intro other named alike
      cases named with
      | number other => exact congrArg Draft.number (beq_iff_eq.1 alike)
      | _ => cases alike
  | text value =>
      intro other named alike
      cases named with
      | text other => exact congrArg Draft.text (beq_iff_eq.1 alike)
      | _ => cases alike
  | list each ih =>
      intro other named alike
      rw [toData_list] at alike
      cases named with
      | list named =>
          rw [toData_list, Data.alike] at alike
          exact congrArg Draft.list (items_eq_of_alike ih named alike)
      | _ => cases alike
  | node names each ih =>
      intro other named alike
      cases named with
      | node names' named => exact node_eq_of_alike names names' ih named alike
      | _ => cases alike

theorem alikeItems_self {items : List Draft}
    (each : ∀ item ∈ items, item.toData.alike item.toData = true) :
    Data.alikeItems (items.map toData) (items.map toData) = true := by
  induction items with
  | nil => rfl
  | cons item items ih =>
      rw [List.forall_mem_cons] at each
      exact Bool.and_eq_true_iff.2 ⟨each.1, ih each.2⟩

/-- A dump is like itself, because no key comes twice. -/
theorem Named.alike_self {draft : Draft} (named : draft.Named) :
    draft.toData.alike draft.toData = true := by
  induction named with
  | absent => rfl
  | truth value => exact beq_self_eq_true value
  | number value => exact beq_self_eq_true value
  | text value => exact beq_self_eq_true value
  | list each ih =>
      rw [toData_list, Data.alike]
      exact alikeItems_self ih
  | @node kind line col fields names each ih =>
      have keys := nodup_keys (.text kind.tag) (.list [.int line, .int col]) names
      rw [toData_node, Data.alike, beq_self_eq_true, Bool.true_and, Data.alikeEntries_iff]
      intro entry mem
      refine ⟨entry.2, Data.valueOf?_of_mem keys mem, ?_⟩
      rcases List.mem_cons.1 mem with rfl | mem
      · exact beq_self_eq_true kind.tag
      rcases List.mem_cons.1 mem with rfl | mem
      · simp [Data.alike, Data.alikeItems]
      · obtain ⟨field, inside, rfl⟩ := List.mem_map.1 mem
        exact ih field inside

/-! ## Drafts that are read, and drafts of trees -/

theorem named_of_lookup? {entries : List (String × Draft)} (each : ∀ entry ∈ entries, entry.2.Named)
    {key : String} {draft : Draft} (found : lookup? entries key = some draft) : draft.Named := by
  obtain ⟨entry, first, rfl⟩ := Option.map_eq_some_iff.1 found
  exact each entry (List.mem_of_find?_eq_some first)

theorem named_of_default? {sort : FieldSort} {draft : Draft} (found : default? sort = some draft) :
    draft.Named := by
  cases sort <;> cases found
  all_goals first | exact .absent | exact .list (List.forall_mem_nil _)

/-- The fields that are read for a schema have its names. -/
theorem named_of_mapM {entries : List (String × Draft)} (each : ∀ entry ∈ entries, entry.2.Named)
    {schema : List (String × FieldSort)} {fields : List (String × Draft)}
    (read : (schema.mapM fun (name, sort) => do
      return (name, ← (lookup? entries name).orElse fun _ => default? sort)) = some fields) :
    fields.map (·.1) = schema.map (·.1) ∧ ∀ field ∈ fields, field.2.Named := by
  induction schema generalizing fields with
  | nil =>
      cases read
      exact ⟨rfl, List.forall_mem_nil _⟩
  | cons entry schema ih =>
      rw [List.mapM_cons] at read
      obtain ⟨field, first, read⟩ := Option.bind_eq_some_iff.1 read
      obtain ⟨content, found, named⟩ := Option.bind_eq_some_iff.1 first
      obtain ⟨rest, others, read⟩ := Option.bind_eq_some_iff.1 read
      cases named
      cases read
      obtain ⟨names, contents⟩ := ih others
      refine ⟨by rw [List.map_cons, List.map_cons, names], List.forall_mem_cons.2 ⟨?_, contents⟩⟩
      cases held : lookup? entries entry.1 with
      | some other =>
          rw [held] at found
          cases found
          exact named_of_lookup? each held
      | none =>
          rw [held] at found
          exact named_of_default? found

theorem named_of_ofEntries? {entries : List (String × Draft)}
    (each : ∀ entry ∈ entries, entry.2.Named) {draft : Draft}
    (read : ofEntries? entries = some draft) : draft.Named := by
  unfold ofEntries? at read
  obtain ⟨tag, -, read⟩ := Option.bind_eq_some_iff.1 read
  split at read
  next name =>
    obtain ⟨kind, -, read⟩ := Option.bind_eq_some_iff.1 read
    obtain ⟨fields, filled, read⟩ := Option.bind_eq_some_iff.1 read
    obtain ⟨names, contents⟩ := named_of_mapM each filled
    split at read
    · cases read
      exact .node names contents
    · cases read
      exact .node names contents
    · cases read
  next => cases read

mutual

/-- Whatever is read from data has the fields of its kinds. -/
theorem named_of_ofData? : (data : Data) → (draft : Draft) → ofData? data = some draft → draft.Named
  | .null, draft, read => by cases read; exact .absent
  | .bool value, draft, read => by cases read; exact .truth value
  | .int value, draft, read => by cases read; exact .number value
  | .text value, draft, read => by cases read; exact .text value
  | .list items, draft, read => by
      obtain ⟨others, inner, read⟩ := Option.bind_eq_some_iff.1 read
      cases read
      exact .list (named_of_ofItems? items others inner)
  | .object entries, draft, read => by
      obtain ⟨others, inner, read⟩ := Option.bind_eq_some_iff.1 read
      exact named_of_ofEntries? (named_of_ofPairs? entries others inner) read

theorem named_of_ofItems? : (items : List Data) → (drafts : List Draft) →
    ofItems? items = some drafts → ∀ draft ∈ drafts, draft.Named
  | [], drafts, read => by cases read; exact List.forall_mem_nil _
  | item :: items, drafts, read => by
      obtain ⟨first, head, read⟩ := Option.bind_eq_some_iff.1 read
      obtain ⟨rest, tail, read⟩ := Option.bind_eq_some_iff.1 read
      cases read
      exact List.forall_mem_cons.2
        ⟨named_of_ofData? item first head, named_of_ofItems? items rest tail⟩

theorem named_of_ofPairs? : (pairs : List (String × Data)) → (entries : List (String × Draft)) →
    ofPairs? pairs = some entries → ∀ entry ∈ entries, entry.2.Named
  | [], entries, read => by cases read; exact List.forall_mem_nil _
  | (key, value) :: pairs, entries, read => by
      obtain ⟨first, head, read⟩ := Option.bind_eq_some_iff.1 read
      obtain ⟨rest, tail, read⟩ := Option.bind_eq_some_iff.1 read
      cases read
      exact List.forall_mem_cons.2
        ⟨named_of_ofData? value first head, named_of_ofPairs? pairs rest tail⟩

end

end Draft

namespace Node

/-- A node has the fields of its kind. -/
theorem map_fst_fields (node : Node) : node.fields.map (·.1) = node.kind.schema.map (·.1) := by
  cases node <;> rfl

theorem named_toDraft_field {field : Field Node}
    (below : ∀ child ∈ field.toList, child.toDraft.Named) : (field.map toDraft).toDraft.Named := by
  cases field with
  | text value => exact .text value
  | node value => exact below value List.mem_cons_self
  | optional value =>
      cases value with
      | none => exact .absent
      | some value => exact below value List.mem_cons_self
  | list value => exact .list (List.forall_mem_map.2 below)
  | optionalList value =>
      cases value with
      | none => exact .absent
      | some value => exact .list (List.forall_mem_map.2 below)

theorem named_toDraft (node : Node) : node.toDraft.Named := by
  induction node using induction_children with
  | step node ih =>
    rw [toDraft_eq]
    refine .node ?_ (List.forall_mem_map.2 fun field mem => ?_)
    · rw [List.map_map]
      exact node.map_fst_fields
    · exact named_toDraft_field fun child inside =>
        ih child (List.mem_flatMap.2 ⟨field, mem, inside⟩)

theorem toData_toDraft_field {field : Field Node}
    (below : ∀ child ∈ field.toList, child.toDraft.toData = child.toData) :
    (field.map toDraft).toDraft.toData = (field.map toData).toData := by
  cases field with
  | text value => rfl
  | node value => exact below value List.mem_cons_self
  | optional value =>
      cases value with
      | none => rfl
      | some value => exact below value List.mem_cons_self
  | list value =>
      change (Draft.list _).toData = Data.list _
      rw [Draft.toData_list, List.map_map]
      exact congrArg Data.list (List.map_congr_left below)
  | optionalList value =>
      cases value with
      | none => rfl
      | some value =>
          change (Draft.list _).toData = Data.list _
          rw [Draft.toData_list, List.map_map]
          exact congrArg Data.list (List.map_congr_left below)

/-- A tree and its draft have the same dump. -/
theorem toData_toDraft (node : Node) : node.toDraft.toData = node.toData := by
  induction node using induction_children with
  | step node ih =>
    have fields : (node.fields.map fun field => (field.1, (field.2.map toDraft).toDraft.toData)) =
        node.fields.map fun field => (field.1, (field.2.map toData).toData) :=
      List.map_congr_left fun field mem => Prod.ext rfl <|
        toData_toDraft_field fun child inside => ih child (List.mem_flatMap.2 ⟨field, mem, inside⟩)
    rw [toDraft_eq, Draft.toData_node, List.map_map]
    exact (congrArg (fun entries => Data.object (_ :: _ :: entries)) fields).trans
      (dump_eq true node).symm

end Node

/-! ## Dumps are faithful -/

namespace Draft

variable {left right : Draft}

/-- Dumps are alike exactly if they are dumps of the same draft. -/
theorem alike_toData_iff (leftNamed : left.Named) (rightNamed : right.Named) :
    left.toData.alike right.toData = true ↔ left = right :=
  ⟨leftNamed.toldApart right rightNamed, fun same => same ▸ leftNamed.alike_self⟩

theorem tfae_toData (leftNamed : left.Named) (rightNamed : right.Named) :
    [left = right, left.toData = right.toData, left.toData.alike right.toData = true].TFAE := by
  tfae_have 1 → 2 := congrArg toData
  tfae_have 2 → 3 := fun same => same ▸ leftNamed.alike_self
  tfae_have 3 → 1 := (alike_toData_iff leftNamed rightNamed).1
  tfae_finish

end Draft

theorem Node.toDraft_inj {left right : Node} : left.toDraft = right.toDraft ↔ left = right := by
  refine ⟨fun same => ?_, congrArg toDraft⟩
  rw [← Draft.settle_toDraft left, same, Draft.settle_toDraft]

/--
Two trees are the same, with all their places, exactly if their dumps are equal, and also exactly if
their dumps are equal up to the order of entries.  The same holds of hand-written nodes with the
fields of their kinds, at any places, whatever the fields hold.
-/
theorem toData_tells_apart :
    (∀ left right : Node,
      [left = right, left.toData = right.toData,
        left.toData.alike right.toData = true].TFAE) ∧
    ∀ left right : Draft, left.Named → right.Named →
      [left = right, left.toData = right.toData,
        left.toData.alike right.toData = true].TFAE := by
  refine ⟨fun left right => ?_, fun _ _ => Draft.tfae_toData⟩
  have drafts := Draft.tfae_toData left.named_toDraft right.named_toDraft
  rwa [Node.toDraft_inj, Node.toData_toDraft, Node.toData_toDraft] at drafts

/-- A name that is absent and a name that is an empty list, at a place that no source has. -/
theorem toData_tells_apart_absent :
    ∃ left right : Draft,
      Draft.ofData? (.object [("_type", .text "rest_param"), ("pos", .list [.int (-1), .int 0])]) =
        some left ∧
      Draft.ofData? (.object [("name", .list []), ("pos", .list [.int (-1), .int 0]),
        ("_type", .text "rest_param")]) = some right ∧
      left.Named ∧ right.Named ∧ left.toData.alike right.toData = false ∧
      [left = right, left.toData = right.toData, left.toData.alike right.toData = true].TFAE := by
  refine ⟨_, _, rfl, rfl, ?left, ?right, rfl, toData_tells_apart.2 _ _ ?left ?right⟩
  · exact Draft.named_of_ofData?
      (.object [("_type", .text "rest_param"), ("pos", .list [.int (-1), .int 0])]) _ rfl
  · exact Draft.named_of_ofData? (.object [("name", .list []),
      ("pos", .list [.int (-1), .int 0]), ("_type", .text "rest_param")]) _ rfl

end RubyFormat
