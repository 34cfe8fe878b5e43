import RubyFormat.Data.Value
import RubyFormat.Proofs.Faithful
import RubyFormat.Proofs.JsonReader

/-!
# The JSON text of a dump is read back

An empty list or object has a text of its own, and everything else that has parts is written as a
row of them, on one line or indented.  A reader of JSON that keeps the last value of a key gets the
data back, because no object of a dump has a key twice: fields have different names, and keys of a
dictionary that are dumped alike are merged before.  Where the digits of an integer are limited, a
value is refused only for an integer that has more.
-/

namespace RubyFormat

namespace Json

theorem jsonItems_eq_map (depth : Nat) (items : List Data) :
    Data.jsonItems depth items = items.map (Data.jsonAt depth) := by
  induction items with
  | nil => rfl
  | cons item items ih => rw [Data.jsonItems, ih, List.map_cons]

/-- The line of an entry. -/
def entryLine (depth : Nat) (entry : String × Data) : List Char :=
  Data.jsonMargin depth ++ Data.jsonText entry.1 ++ [':', ' '] ++ Data.jsonAt depth entry.2

theorem jsonEntries_eq_map (depth : Nat) (entries : List (String × Data)) :
    Data.jsonEntries depth entries = entries.map (entryLine depth) := by
  induction entries with
  | nil => rfl
  | cons entry entries ih => rw [Data.jsonEntries, ih, List.map_cons]; rfl

theorem row_jsonBlock (left close : Char) (depth : Nat) (lines : List (List Char)) :
    ∃ row, Data.jsonBlock left close depth lines = left :: row ∧ Row close lines row := by
  have blank : ∀ c ∈ '\n' :: Data.jsonMargin depth, isGap c = true :=
    List.forall_mem_cons.2 ⟨rfl, isGap_of_mem_margin⟩
  have line : ∀ c ∈ ['\n'], isGap c = true := List.forall_mem_singleton.2 rfl
  refine ⟨_, ?_, Row.intro line line blank⟩
  simp [Data.jsonBlock]

/-- A list with items is written as a row, each item behind a margin. -/
theorem row_list (level : Nat) {items : List Data} (some : items ≠ []) :
    ∃ depth margin row, (∀ c ∈ margin, isGap c = true) ∧
      Data.jsonAt level (.list items) = '[' :: row ∧
      Row ']' (items.map fun item => margin ++ Data.jsonAt depth item) row := by
  have full : items.isEmpty = false := by simpa using some
  rw [Data.jsonAt]
  simp only [full, Bool.false_eq_true, if_false, jsonItems_eq_map]
  split
  · obtain ⟨row, written, isRow⟩ := row_jsonBlock '[' ']' level
      (items.map fun item => Data.jsonMargin (level + 1) ++ Data.jsonAt (level + 1) item)
    refine ⟨level + 1, _, row, isGap_of_mem_margin, ?_, isRow⟩
    rw [← written, List.map_map]
    rfl
  · have blank : ∀ c ∈ [' '], isGap c = true := List.forall_mem_singleton.2 rfl
    refine ⟨level, [], _, List.forall_mem_nil _, ?_,
      Row.intro (List.forall_mem_nil _) blank (List.forall_mem_nil _)⟩
    simp

/-- An object with entries is written as a row of its lines. -/
theorem row_object (level : Nat) {entries : List (String × Data)} (some : entries ≠ []) :
    ∃ row, Data.jsonAt level (.object entries) = '\x7b' :: row ∧
      Row '\x7d' (entries.map (entryLine (level + 1))) row := by
  have full : entries.isEmpty = false := by simpa using some
  rw [Data.jsonAt]
  simp only [full, Bool.false_eq_true, if_false, jsonEntries_eq_map]
  exact row_jsonBlock '\x7b' '\x7d' level _

theorem exists_decimal_eq_cons (value : Int) :
    ∃ c more, Data.decimal value = c :: more ∧ (c.isDigit = true ∨ c = '-') := by
  cases value with
  | ofNat value =>
      obtain ⟨digit, more, digits⟩ :=
        List.exists_cons_of_length_pos (@Nat.length_toDigits_pos 10 value)
      exact ⟨digit, more, digits, .inl (isDigit_of_mem digit (digits ▸ List.mem_cons_self))⟩
  | negSucc value => exact ⟨_, _, rfl, .inr rfl⟩

/-- What is written of data starts with no white space and closes no list. -/
theorem exists_jsonAt_eq_cons (level : Nat) (data : Data) :
    ∃ c more, Data.jsonAt level data = c :: more ∧ isGap c = false ∧ c ≠ ']' := by
  cases data with
  | null => exact ⟨_, _, rfl, rfl, by decide⟩
  | bool value => cases value <;> exact ⟨_, _, rfl, rfl, by decide⟩
  | int value =>
      obtain ⟨c, more, written, isDigit | rfl⟩ := exists_decimal_eq_cons value
      · refine ⟨c, more, written, ?_, ?_⟩
        · by_contra blank
          simp only [isGap, Bool.not_eq_false, Bool.or_eq_true, beq_iff_eq] at blank
          rcases blank with ((rfl | rfl) | rfl) | rfl <;> cases isDigit
        · rintro rfl
          cases isDigit
      · exact ⟨_, _, written, rfl, by decide⟩
  | text value => exact ⟨_, _, rfl, rfl, by decide⟩
  | list items =>
      rcases eq_or_ne items [] with rfl | some
      · exact ⟨_, _, rfl, rfl, by decide⟩
      · obtain ⟨depth, margin, row, -, written, -⟩ := row_list level some
        exact ⟨_, _, written, rfl, by decide⟩
  | object entries =>
      rcases eq_or_ne entries [] with rfl | some
      · exact ⟨_, _, rfl, rfl, by decide⟩
      · obtain ⟨row, written, -⟩ := row_object level some
        exact ⟨_, _, written, rfl, by decide⟩

theorem skip_jsonAt {margin : List Char} (blank : ∀ c ∈ margin, isGap c = true) (level : Nat)
    (data : Data) (rest : List Char) :
    skip (margin ++ Data.jsonAt level data ++ rest) = Data.jsonAt level data ++ rest := by
  obtain ⟨c, more, written, solid, -⟩ := exists_jsonAt_eq_cons level data
  rw [List.append_assoc, skip_append blank, written, List.cons_append, skip_cons solid]

end Json

/-- All objects in data have different keys. -/
inductive Data.Distinct : Data → Prop where
  | null : Distinct .null
  | bool (value : Bool) : Distinct (.bool value)
  | int (value : Int) : Distinct (.int value)
  | text (value : String) : Distinct (.text value)
  | list {items : List Data} (each : ∀ item ∈ items, Distinct item) : Distinct (.list items)
  | object {entries : List (String × Data)} (keys : (entries.map (·.1)).Nodup)
      (each : ∀ entry ∈ entries, Distinct entry.2) : Distinct (.object entries)

section

variable [BEq κ] [LawfulBEq κ]

theorem setEntry_of_notMem {key : κ} {entries : List (κ × β)} (new : key ∉ entries.map (·.1))
    (value : β) : setEntry key value entries = entries ++ [(key, value)] := by
  induction entries with
  | nil => rfl
  | cons entry entries ih =>
      rw [List.map_cons, List.mem_cons, not_or] at new
      have other : ¬ (entry.1 == key) = true := fun same => new.1 (eq_of_beq same).symm
      rw [setEntry, if_neg other, ih new.2, List.cons_append]

theorem foldl_setEntry {entries pairs : List (κ × β)}
    (single : ((entries ++ pairs).map (·.1)).Nodup) :
    pairs.foldl (fun entries pair => setEntry pair.1 pair.2 entries) entries =
      entries ++ pairs := by
  induction pairs generalizing entries with
  | nil => rw [List.foldl_nil, List.append_nil]
  | cons pair pairs ih =>
      have new : pair.1 ∉ entries.map (·.1) := by
        rw [List.map_append, List.map_cons] at single
        exact fun mem => (List.nodup_append.1 single).2.2 _ mem _ List.mem_cons_self rfl
      rw [List.foldl_cons, setEntry_of_notMem new, ih, List.append_assoc, List.singleton_append]
      rwa [List.append_assoc, List.singleton_append]

/-- Pairs with different keys are the entries. -/
theorem mergeEntries_of_nodup {pairs : List (κ × β)} (single : (pairs.map (·.1)).Nodup) :
    mergeEntries pairs = pairs :=
  foldl_setEntry single

end

namespace Json

/-- The reader gets data from what is written of it, at any level and in front of any rest. -/
def Readable (data : Data) : Prop :=
  ∀ level depth rest, (Data.jsonAt level data).length ≤ depth → endsNumber rest = true →
    readData depth (Data.jsonAt level data ++ rest) = some (data, rest)

theorem Readable.of_succ {data : Data}
    (read : ∀ level depth rest, (Data.jsonAt level data).length ≤ depth + 1 →
      endsNumber rest = true →
      readData (depth + 1) (Data.jsonAt level data ++ rest) = some (data, rest)) :
    Readable data := by
  intro level depth rest deep ends
  cases depth with
  | zero =>
      obtain ⟨c, more, written, -⟩ := exists_jsonAt_eq_cons level data
      rw [written] at deep
      cases deep
  | succ depth => exact read level depth rest deep ends

theorem Readable.readsAs {data : Data} (readable : Readable data) {margin : List Char}
    (blank : ∀ c ∈ margin, isGap c = true) {level depth : Nat}
    (deep : (margin ++ Data.jsonAt level data).length ≤ depth) :
    ReadsAs (readData depth) (margin ++ Data.jsonAt level data) data := by
  intro rest ends
  rw [List.length_append] at deep
  rw [skip_jsonAt blank]
  exact readable level depth rest (by omega) ends

theorem readable_int (value : Int) : Readable (.int value) := by
  refine .of_succ fun level depth rest _ ends => ?_
  have whole := readInt_decimal value ends
  obtain ⟨c, more, written, first⟩ := exists_decimal_eq_cons value
  change readData (depth + 1) (Data.decimal value ++ rest) = _
  rw [written] at whole ⊢
  rw [readData]
  split
  case h_7 => rw [whole]; rfl
  all_goals
    rename_i isFirst
    obtain rfl := Option.some.inj isFirst
    rcases first with isDigit | isSign
    · cases isDigit
    · cases isSign

theorem readable_list {items : List Data} (each : ∀ item ∈ items, Readable item) :
    Readable (.list items) := by
  refine .of_succ fun level depth rest deep _ => ?_
  rcases eq_or_ne items [] with rfl | some
  · rfl
  obtain ⟨inner, margin, row, blank, written, isRow⟩ := row_list level some
  have read : readRow ']' (readData depth) (row ++ rest) = .some (items, rest) := by
    refine isRow.readRow_append rfl (by decide) rfl some (fun item mem => ?_) fun item _ more => ?_
    · have short := isRow.length_lt (List.mem_map.2 ⟨item, mem, rfl⟩)
      rw [written, List.length_cons] at deep
      exact (each item mem).readsAs blank (by omega)
    · obtain ⟨c, tail, first, -, noClose⟩ := exists_jsonAt_eq_cons inner item
      rw [skip_jsonAt blank, first]
      simpa using noClose
  rw [written, List.cons_append, readData]
  simp only [List.head?_cons, List.tail_cons, read, Option.map_some]

theorem skip_entryLine (level : Nat) (entry : String × Data) (rest : List Char) :
    skip (entryLine level entry ++ rest) =
      Data.jsonText entry.1 ++ (':' :: ([' '] ++ Data.jsonAt level entry.2 ++ rest)) := by
  rw [entryLine, List.append_assoc, List.append_assoc, List.append_assoc,
    skip_append isGap_of_mem_margin, Data.jsonText, List.cons_append, List.cons_append,
    skip_cons rfl]
  simp

/-- The line of an entry is read as the entry. -/
theorem Readable.readsAs_entryLine {entry : String × Data} (readable : Readable entry.2)
    {level depth : Nat} (deep : (entryLine level entry).length ≤ depth) :
    ReadsAs (readEntry (readData depth)) (entryLine level entry) entry := by
  intro rest ends
  have colon : ∀ chars, [':'].isPrefixOf? (':' :: chars) = some chars := fun chars =>
    List.isPrefixOf?_eq_some_iff_append_eq.2 rfl
  rw [entryLine, List.length_append] at deep
  rw [skip_entryLine, readEntry, readText_jsonText]
  simp only [Option.bind_eq_bind, Option.bind_some]
  have blank : ∀ c ∈ [' '], isGap c = true := List.forall_mem_singleton.2 rfl
  rw [skip_cons rfl, colon, Option.bind_some, skip_jsonAt blank,
    readable level depth rest (by omega) ends]
  rfl

theorem readable_object {entries : List (String × Data)} (keys : (entries.map (·.1)).Nodup)
    (each : ∀ entry ∈ entries, Readable entry.2) : Readable (.object entries) := by
  refine .of_succ fun level depth rest deep _ => ?_
  rcases eq_or_ne entries [] with rfl | some
  · rfl
  obtain ⟨row, written, isRow⟩ := row_object level some
  have read : readRow '\x7d' (readEntry (readData depth)) (row ++ rest) =
      .some (entries, rest) := by
    refine isRow.readRow_append rfl (by decide) rfl some (fun entry mem => ?_)
      fun entry _ more => ?_
    · have short := isRow.length_lt (List.mem_map.2 ⟨entry, mem, rfl⟩)
      rw [written, List.length_cons] at deep
      exact (each entry mem).readsAs_entryLine (by omega)
    · rw [skip_entryLine, Data.jsonText, List.cons_append]
      simp
  rw [written, List.cons_append, readData]
  simp only [List.head?_cons, List.tail_cons, read, Option.map_some, mergeEntries_of_nodup keys]

/-- Data with different keys is read back. -/
theorem readable {data : Data} (distinct : data.Distinct) : Readable data := by
  induction distinct with
  | null => exact .of_succ fun _ _ _ _ _ => rfl
  | bool value => cases value <;> exact .of_succ fun _ _ _ _ _ => rfl
  | int value => exact readable_int value
  | text value =>
      refine .of_succ fun level depth rest _ _ => ?_
      change (readText (Data.jsonText value ++ rest)).map _ = _
      rw [readText_jsonText]
      rfl
  | list each ih => exact readable_list ih
  | object keys each ih => exact readable_object keys ih

/-- The JSON text of data with different keys is read as the data. -/
theorem ofJson?_json {data : Data} (distinct : data.Distinct) :
    Data.ofJson? data.json = some data := by
  have read := readable distinct 0 (Data.jsonAt 0 data).length [] (Nat.le_refl _) rfl
  have start := skip_jsonAt (List.forall_mem_nil _) 0 data []
  rw [List.nil_append, List.append_nil] at start
  rw [List.append_nil] at read
  rw [Data.ofJson?, Data.json, String.toList_ofList, start, read]
  rfl

end Json

/-! ## The data of a value -/

section

variable [BEq κ] [LawfulBEq κ]

theorem mem_of_mem_setEntry {key : κ} {value : β} {entries : List (κ × β)} {entry : κ × β}
    (mem : entry ∈ setEntry key value entries) : entry = (key, value) ∨ entry ∈ entries := by
  induction entries with
  | nil => exact .inl (List.mem_singleton.1 mem)
  | cons first entries ih =>
      rw [setEntry] at mem
      split at mem
      next same =>
        rcases List.mem_cons.1 mem with rfl | mem
        · exact .inl (by rw [eq_of_beq same])
        · exact .inr (List.mem_cons_of_mem _ mem)
      next =>
        rcases List.mem_cons.1 mem with rfl | mem
        · exact .inr List.mem_cons_self
        · exact (ih mem).imp_right (List.mem_cons_of_mem _)

theorem nodup_setEntry (key : κ) (value : β) {entries : List (κ × β)}
    (single : (entries.map (·.1)).Nodup) : ((setEntry key value entries).map (·.1)).Nodup := by
  induction entries with
  | nil => exact List.nodup_singleton _
  | cons first entries ih =>
      rw [setEntry]
      split
      · exact single
      next differ =>
        rw [List.map_cons, List.nodup_cons] at single
        refine List.nodup_cons.2 ⟨fun mem => ?_, ih single.2⟩
        obtain ⟨entry, there, same⟩ := List.mem_map.1 mem
        rcases mem_of_mem_setEntry there with rfl | there
        · exact differ (beq_iff_eq.2 same.symm)
        · exact single.1 (List.mem_map.2 ⟨entry, there, same⟩)

theorem nodup_mergeEntries (pairs : List (κ × β)) : ((mergeEntries pairs).map (·.1)).Nodup :=
  List.foldlRecOn (motive := fun entries : List (κ × β) => (entries.map Prod.fst).Nodup) pairs _
    List.nodup_nil fun _ single pair _ => nodup_setEntry pair.1 pair.2 single

theorem mem_of_mem_mergeEntries {pairs : List (κ × β)} :
    ∀ entry ∈ mergeEntries pairs, entry ∈ pairs :=
  List.foldlRecOn (motive := fun entries : List (κ × β) => ∀ entry ∈ entries, entry ∈ pairs) pairs _
    (List.forall_mem_nil _) fun _ all _ mem entry there =>
      (mem_of_mem_setEntry there).elim (fun same => same ▸ mem) (all entry)

end

namespace Data

theorem Distinct.place (line col : Int) : Distinct (.list [.int line, .int col]) :=
  .list (List.forall_mem_cons.2 ⟨.int line, List.forall_mem_singleton.2 (.int col)⟩)

theorem fits_eq_false_iff {limit : Nat} {value : Int} :
    fits limit value = false ↔ limit ≠ 0 ∧ 10 ^ limit ≤ value.natAbs := by
  simp [fits]

theorem intsOfItems_eq_flatMap (items : List Data) : intsOfItems items = items.flatMap ints := by
  induction items with
  | nil => rfl
  | cons item items ih => rw [intsOfItems, ih, List.flatMap_cons]

theorem intsOfEntries_eq_flatMap (entries : List (String × Data)) :
    intsOfEntries entries = entries.flatMap (·.2.ints) := by
  induction entries with
  | nil => rfl
  | cons entry entries ih => rw [intsOfEntries, ih, List.flatMap_cons]

end Data

/-- The dump of a draft has different keys in all its objects. -/
theorem Draft.Named.distinct {draft : Draft} (named : draft.Named) : draft.toData.Distinct := by
  induction named with
  | absent => exact .null
  | truth value => exact .bool value
  | number value => exact .int value
  | text value => exact .text value
  | list each ih =>
      rw [toData_list]
      exact .list (List.forall_mem_map.2 ih)
  | @node kind line col fields names each ih =>
      rw [toData_node]
      refine .object (nodup_keys _ _ names) (List.forall_mem_cons.2 ⟨.text _, ?_⟩)
      exact List.forall_mem_cons.2 ⟨.place line col, List.forall_mem_map.2 ih⟩

namespace Value

/-- Values that have a dump; their nodes have the fields of their kinds. -/
inductive Dumpable : Value → Prop where
  | null : Dumpable .null
  | bool (value : Bool) : Dumpable (.bool value)
  | int (value : Int) : Dumpable (.int value)
  | text (value : String) : Dumpable (.text value)
  | list {items : List Value} (each : ∀ item ∈ items, Dumpable item) : Dumpable (.list items)
  | dict {entries : List (Key × Value)} (each : ∀ entry ∈ entries, Dumpable entry.2) :
      Dumpable (.dict entries)
  | place (line col : Int) : Dumpable (.place line col)
  | node {draft : Draft} (named : draft.Named) : Dumpable (.node draft)

/-- An integer stands in a value, as a key of a dictionary or otherwise. -/
inductive Mentions (number : Int) : Value → Prop where
  | int : Mentions number (.int number)
  | item {item items} : item ∈ items → Mentions number item → Mentions number (.list items)
  | key {entry entries} : entry ∈ entries → entry.1 = .int number → Mentions number (.dict entries)
  | entry {entry entries} : entry ∈ entries → Mentions number entry.2 →
      Mentions number (.dict entries)
  | place {line col} : number ∈ [line, col] → Mentions number (.place line col)
  | node {draft} : number ∈ draft.toData.ints → Mentions number (.node draft)

/-- Data with different keys in all objects and with no other integers than those mentioned. -/
def Faithful (mentions : Int → Prop) (data : Data) : Prop :=
  data.Distinct ∧ ∀ number ∈ data.ints, mentions number

/--
What can come out of a dump: a result with the given property, or the refusal of an integer that is
mentioned and has too many digits.
-/
def Dumps (limit : Nat) (mentions : Int → Prop) (good : α → Prop) : Except DumpError α → Prop
  | .ok result => good result
  | .error error =>
      error = .tooLong limit ∧ ∃ long, mentions long ∧ limit ≠ 0 ∧ 10 ^ limit ≤ long.natAbs

variable {limit : Nat} {mentions : Int → Prop}

theorem Dumps.bind {good : α → Prop} {goal : β → Prop} {result : Except DumpError α}
    {next : α → Except DumpError β} (first : Dumps limit mentions good result)
    (others : ∀ value, good value → Dumps limit mentions goal (next value)) :
    Dumps limit mentions goal (result >>= next) := by
  cases result with
  | error error => exact first
  | ok value => exact others value first

theorem Dumps.mono {mentioned : Int → Prop} {good goal : α → Prop} {result : Except DumpError α}
    (dumps : Dumps limit mentions good result)
    (wider : ∀ number, mentions number → mentioned number)
    (weaker : ∀ value, good value → goal value) : Dumps limit mentioned goal result := by
  cases result with
  | error error =>
    obtain ⟨same, long, mention, isLong⟩ := dumps
    exact ⟨same, long, wider long mention, isLong⟩
  | ok value => exact weaker value dumps

/-- The data of all items come out, or an integer of one of them is refused. -/
theorem dumps_itemsToData {items : List Value}
    (each : ∀ item ∈ items, Dumps limit mentions (Faithful mentions) (item.toData limit)) :
    Dumps limit mentions (fun datas => ∀ data ∈ datas, Faithful mentions data)
      (itemsToData limit items) := by
  induction items with
  | nil => exact List.forall_mem_nil _
  | cons item items ih =>
      rw [List.forall_mem_cons] at each
      exact each.1.bind fun data faithful => (ih each.2).bind fun datas others =>
        List.forall_mem_cons.2 ⟨faithful, others⟩

theorem dumps_name {key : Key} (mentioned : ∀ number, key = .int number → mentions number) :
    Dumps limit mentions (fun _ => True) (key.name limit) := by
  cases key with
  | text value => trivial
  | int value =>
      rw [Key.name]
      split
      · trivial
      next unfit =>
        have isLong := Data.fits_eq_false_iff.1 (eq_false_of_ne_true unfit)
        exact ⟨rfl, value, mentioned value rfl, isLong⟩

/-- The data of all entries come out, or an integer of one of them or its key is refused. -/
theorem dumps_entriesToData {entries : List (Key × Value)}
    (keys : ∀ entry ∈ entries, ∀ number, entry.1 = .int number → mentions number)
    (each : ∀ entry ∈ entries, Dumps limit mentions (Faithful mentions) (entry.2.toData limit)) :
    Dumps limit mentions (fun pairs => ∀ pair ∈ pairs, Faithful mentions pair.2)
      (entriesToData limit entries) := by
  induction entries with
  | nil => exact List.forall_mem_nil _
  | cons entry entries ih =>
      rw [List.forall_mem_cons] at keys each
      exact (dumps_name keys.1).bind fun name _ => each.1.bind fun data faithful =>
        (ih keys.2 each.2).bind fun pairs others => List.forall_mem_cons.2 ⟨faithful, others⟩

theorem Faithful.list {datas : List Data} (each : ∀ data ∈ datas, Faithful mentions data) :
    Faithful mentions (.list datas) := by
  refine ⟨.list fun data mem => (each data mem).1, fun number mem => ?_⟩
  rw [Data.ints, Data.intsOfItems_eq_flatMap] at mem
  obtain ⟨data, there, inside⟩ := List.mem_flatMap.1 mem
  exact (each data there).2 number inside

theorem Faithful.object {pairs : List (String × Data)}
    (each : ∀ pair ∈ pairs, Faithful mentions pair.2) :
    Faithful mentions (.object (mergeEntries pairs)) := by
  have kept (pair) (mem : pair ∈ mergeEntries pairs) := each pair (mem_of_mem_mergeEntries pair mem)
  refine ⟨.object (nodup_mergeEntries pairs) fun pair mem => (kept pair mem).1,
    fun number mem => ?_⟩
  rw [Data.ints, Data.intsOfEntries_eq_flatMap] at mem
  obtain ⟨pair, there, inside⟩ := List.mem_flatMap.1 mem
  exact (kept pair there).2 number inside

/-- The data of a value that can be dumped come out, or one of its integers is refused. -/
theorem Dumpable.dumps_toData {value : Value} (dumpable : value.Dumpable) (limit : Nat) :
    Dumps limit value.Mentions (Faithful value.Mentions) (value.toData limit) := by
  have wider {whole part : Value} (within : ∀ number, part.Mentions number → whole.Mentions number)
      (ih : Dumps limit part.Mentions (Faithful part.Mentions) (part.toData limit)) :
      Dumps limit whole.Mentions (Faithful whole.Mentions) (part.toData limit) :=
    ih.mono within fun _ faithful =>
      ⟨faithful.1, fun number mem => within number (faithful.2 number mem)⟩
  induction dumpable with
  | null => exact ⟨.null, List.forall_mem_nil _⟩
  | bool value => exact ⟨.bool value, List.forall_mem_nil _⟩
  | int value => exact ⟨.int value, List.forall_mem_singleton.2 .int⟩
  | text value => exact ⟨.text value, List.forall_mem_nil _⟩
  | list each ih =>
      exact (dumps_itemsToData fun item mem => wider (fun _ => .item mem) (ih item mem)).bind
        fun _ faithful => .list faithful
  | dict each ih =>
      refine (dumps_entriesToData (fun entry mem number => .key mem)
        fun entry mem => wider (fun _ => .entry mem) (ih entry mem)).bind fun _ faithful => ?_
      exact .object faithful
  | place line col => exact ⟨.place line col, fun number mem => .place mem⟩
  | node named => exact ⟨named.distinct, fun number mem => .node mem⟩

theorem Faithful.dumps_dump {data : Data} (faithful : Faithful mentions data) (limit : Nat) :
    Dumps limit mentions (fun text => Data.ofJson? text = some data) (data.dump limit) := by
  rw [Data.dump]
  split
  · exact Json.ofJson?_json faithful.1
  next refused =>
    obtain ⟨long, mem, unfit⟩ := List.all_eq_false.1 (eq_false_of_ne_true refused)
    exact ⟨rfl, long, faithful.2 long mem, Data.fits_eq_false_iff.1 (eq_false_of_ne_true unfit)⟩

example : (Value.list [.int (-10 ^ 40)]).json 40 = .error (.tooLong 40) := rfl

end Value

end RubyFormat
