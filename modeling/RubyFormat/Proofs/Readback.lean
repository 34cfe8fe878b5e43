import Mathlib.Data.List.Basic
import RubyFormat.Doc.Debug

/-!
# Reading a document back

The written form of a document is an expression, and a reader goes through it from left to right:
the first letter tells what is built, and what comes after a part tells whether there is another.
The reader gets the document back from its written form and accepts nothing else, so no two
documents are written alike, whatever their texts hold.
-/

namespace RubyFormat.Doc

/-! ## The reader -/

/-- The character that a mark behind a backslash stands for. -/
def escaped? (mark : Char) : Option Char :=
  if mark = '\\' then some '\\'
  else if mark = '"' then some '"'
  else if mark = 'n' then some '\n'
  else none

/-- Read a text up to its closing quote; no quote and no newline stands in it by itself. -/
def readText : List Char → Option (List Char × List Char)
  | [] => none
  | '"' :: rest => some ([], rest)
  | '\n' :: _ => none
  | ['\\'] => none
  | '\\' :: mark :: rest => do
      let c ← escaped? mark
      let (value, rest) ← readText rest
      return (c :: value, rest)
  | c :: rest => do
      let (value, rest) ← readText rest
      return (c :: value, rest)

/-- What follows a word at the start of a text. -/
def behind? (word : String) (chars : List Char) : Option (List Char) :=
  word.toList.isPrefixOf? chars

/-- Read a document between a word that opens it and the parenthesis that closes it. -/
def readBetween (read : List Char → Option (Doc × List Char)) (word : String) (chars : List Char) :
    Option (Doc × List Char) := do
  let (contents, rest) ← read (← behind? word chars)
  return (contents, ← behind? ")" rest)

mutual

/-- Read a document off the start of a text, going down no further than the given depth. -/
def readDoc : Nat → List Char → Option (Doc × List Char)
  | 0, _ => none
  | depth + 1, chars =>
      match chars.head? with
      | some '"' => do
          let (value, rest) ← readText (← behind? "\"" chars)
          return (.text (String.ofList value), rest)
      | some 'c' => do
          let (parts, rest) ← readParts depth (← behind? "concat([" chars)
          return (.concat parts, rest)
      | some 'g' => do
          let (contents, rest) ← readBetween (readDoc depth) "group(" chars
          return (.group contents, rest)
      | some 'i' => do
          let (contents, rest) ← readBetween (readDoc depth) "indent(" chars
          return (.indent contents, rest)
      | some 'h' => do return (.line true, ← behind? "hardline" chars)
      | some 'l' => do return (.line false, ← behind? "line" chars)
      | _ => none

/-- Read the parts of a row and what closes it. -/
def readParts : Nat → List Char → Option (List Doc × List Char)
  | 0, _ => none
  | depth + 1, chars =>
      match chars.head? with
      | some ']' => do return ([], ← behind? "])" chars)
      | _ => readMore depth chars

/-- Read the parts of a row, of which there is at least one. -/
def readMore : Nat → List Char → Option (List Doc × List Char)
  | 0, _ => none
  | depth + 1, chars => do
      let (part, rest) ← readDoc depth chars
      match rest.head? with
      | some ',' => do
          let (parts, rest) ← readMore depth (← behind? ", " rest)
          return (part :: parts, rest)
      | _ => return ([part], ← behind? "])" rest)

end

/-- The document whose written form is the text. -/
def read? (text : String) : Option Doc :=
  match readDoc text.toList.length text.toList with
  | some (doc, []) => some doc
  | _ => none

/-! ## Texts -/

/-- One character of a text between its quotes. -/
def debugChar (c : Char) : List Char :=
  if c = '\\' then ['\\', '\\']
  else if c = '"' then ['\\', '"']
  else if c = '\n' then ['\\', 'n']
  else [c]

/-- No pass of escaping touches what another has put in, because backslashes come first. -/
theorem escape_escape_escape (text : List Char) :
    escape '\n' 'n' (escape '"' '"' (escape '\\' '\\' text)) = text.flatMap debugChar := by
  simp only [escape, List.flatMap_assoc]
  congr 1
  funext c
  by_cases backslash : c = '\\'
  · simp [backslash, debugChar]
  · by_cases quote : c = '"'
    · simp [quote, debugChar]
    · simp [backslash, quote, debugChar]

theorem readText_debugChar (c : Char) (text : List Char) :
    readText (debugChar c ++ text) = do
      let (value, rest) ← readText text
      return (c :: value, rest) := by
  unfold debugChar
  split
  · subst c; rfl
  · split
    · subst c; rfl
    · split
      · subst c; rfl
      · simp_all [readText]

/-- What is written of a text is read as the text. -/
theorem readText_flatMap (value rest : List Char) :
    readText (value.flatMap debugChar ++ '"' :: rest) = some (value, rest) := by
  induction value with
  | nil => rfl
  | cons c value ih => rw [List.flatMap_cons, List.append_assoc, readText_debugChar, ih]; rfl

theorem debugChar_of_escaped? {mark c : Char} (found : escaped? mark = some c) :
    debugChar c = ['\\', mark] := by
  unfold escaped? at found
  split at found
  · cases found; subst mark; rfl
  · split at found
    · cases found; subst mark; rfl
    · split at found
      · cases found; subst mark; rfl
      · cases found

/-- What is read as a text is what is written of it. -/
theorem eq_flatMap_of_readText {chars value rest : List Char}
    (read : readText chars = some (value, rest)) :
    chars = value.flatMap debugChar ++ '"' :: rest := by
  fun_induction readText chars generalizing value rest with
  | case1 => cases read
  | case2 => cases read; rfl
  | case3 => cases read
  | case4 => cases read
  | case5 mark behind ih =>
    obtain ⟨c, found, read⟩ := Option.bind_eq_some_iff.1 read
    obtain ⟨⟨more, left⟩, tail, read⟩ := Option.bind_eq_some_iff.1 read
    cases read
    rw [List.flatMap_cons, debugChar_of_escaped? found, ih tail]
    rfl
  | case6 c behind noQuote noBreak noLast noMark ih =>
    obtain ⟨⟨more, left⟩, tail, read⟩ := Option.bind_eq_some_iff.1 read
    cases read
    have plain : debugChar c = [c] := by
      have noBackslash : c ≠ '\\' := by
        rintro rfl
        cases behind with
        | nil => exact noLast rfl rfl
        | cons mark others => exact noMark mark others rfl rfl
      rw [debugChar, if_neg noBackslash, if_neg noQuote, if_neg noBreak]
    rw [List.flatMap_cons, plain, ih tail]
    rfl

theorem debugChars_text (value : String) :
    (Doc.text value).debugChars = '"' :: value.toList.flatMap debugChar ++ ['"'] := by
  change debugText value = _
  rw [debugText, escape_escape_escape]

theorem debugChars_text_ofList (value : List Char) :
    (Doc.text (String.ofList value)).debugChars = '"' :: value.flatMap debugChar ++ ['"'] := by
  rw [debugChars_text, String.toList_ofList]

/-! ## Documents -/

theorem behind?_append (word : String) (rest : List Char) :
    behind? word (word.toList ++ rest) = some rest :=
  List.isPrefixOf?_eq_some_iff_append_eq.2 rfl

theorem eq_append_of_behind? {word : String} {chars rest : List Char}
    (found : behind? word chars = some rest) : chars = word.toList ++ rest :=
  (List.isPrefixOf?_eq_some_iff_append_eq.1 found).symm

/-- The parts of a row as they are written, with what closes it. -/
def debugRow (parts : List Doc) : List Char :=
  [',', ' '].intercalate (parts.map debugChars) ++ "])".toList

theorem debugRow_single (part : Doc) : debugRow [part] = part.debugChars ++ "])".toList := by
  simp [debugRow]

theorem debugRow_cons_cons (part next : Doc) (parts : List Doc) :
    debugRow (part :: next :: parts) =
      part.debugChars ++ (", ".toList ++ debugRow (next :: parts)) := by
  rw [debugRow, debugRow, List.map_cons, List.map_cons, List.intercalate_cons_cons,
    List.append_assoc, List.append_assoc]
  rfl

theorem debugChars_concat (parts : List Doc) :
    (Doc.concat parts).debugChars = "concat([".toList ++ debugRow parts := by
  change "concat([".toList ++ [',', ' '].intercalate (debugParts parts) ++ [']', ')'] = _
  rw [debugParts_eq_map, List.append_assoc]
  rfl

theorem debugChars_group (contents : Doc) :
    (Doc.group contents).debugChars = "group(".toList ++ contents.debugChars ++ ")".toList := rfl

theorem debugChars_indent (contents : Doc) :
    (Doc.indent contents).debugChars = "indent(".toList ++ contents.debugChars ++ ")".toList := rfl

/-- What is read, down to some depth, is what is written of it. -/
structure ReadsWritten (depth : Nat) : Prop where
  ofDoc {chars rest : List Char} {doc : Doc} (read : readDoc depth chars = some (doc, rest)) :
    chars = doc.debugChars ++ rest
  ofParts {chars rest : List Char} {parts : List Doc}
    (read : readParts depth chars = some (parts, rest)) : chars = debugRow parts ++ rest
  ofMore {chars rest : List Char} {parts : List Doc}
    (read : readMore depth chars = some (parts, rest)) :
      parts ≠ [] ∧ chars = debugRow parts ++ rest

namespace ReadsWritten

variable {depth : Nat} {chars rest : List Char}

theorem between (below : ReadsWritten depth) {word : String} {contents : Doc}
    (read : readBetween (readDoc depth) word chars = some (contents, rest)) :
    chars = word.toList ++ contents.debugChars ++ ")".toList ++ rest := by
  obtain ⟨opened, found, read⟩ := Option.bind_eq_some_iff.1 read
  obtain ⟨⟨inside, left⟩, inner, read⟩ := Option.bind_eq_some_iff.1 read
  obtain ⟨closed, last, read⟩ := Option.bind_eq_some_iff.1 read
  cases read
  rw [eq_append_of_behind? found, below.ofDoc inner, eq_append_of_behind? last]
  simp only [List.append_assoc]

theorem doc_step (below : ReadsWritten depth) {doc : Doc}
    (read : readDoc (depth + 1) chars = some (doc, rest)) : chars = doc.debugChars ++ rest := by
  rw [readDoc] at read
  -- One case for each letter that a document can start with.
  split at read
  · obtain ⟨opened, found, read⟩ := Option.bind_eq_some_iff.1 read
    obtain ⟨⟨value, left⟩, inner, read⟩ := Option.bind_eq_some_iff.1 read
    cases read
    rw [debugChars_text_ofList, eq_append_of_behind? found, eq_flatMap_of_readText inner]
    simp
  · obtain ⟨opened, found, read⟩ := Option.bind_eq_some_iff.1 read
    obtain ⟨⟨parts, left⟩, inner, read⟩ := Option.bind_eq_some_iff.1 read
    cases read
    rw [debugChars_concat, eq_append_of_behind? found, below.ofParts inner, List.append_assoc]
  · obtain ⟨⟨contents, left⟩, inner, read⟩ := Option.bind_eq_some_iff.1 read
    cases read
    rw [debugChars_group, below.between inner]
  · obtain ⟨⟨contents, left⟩, inner, read⟩ := Option.bind_eq_some_iff.1 read
    cases read
    rw [debugChars_indent, below.between inner]
  · obtain ⟨left, found, read⟩ := Option.bind_eq_some_iff.1 read
    cases read
    exact eq_append_of_behind? found
  · obtain ⟨left, found, read⟩ := Option.bind_eq_some_iff.1 read
    cases read
    exact eq_append_of_behind? found
  · cases read

theorem more_step (below : ReadsWritten depth) {parts : List Doc}
    (read : readMore (depth + 1) chars = some (parts, rest)) :
    parts ≠ [] ∧ chars = debugRow parts ++ rest := by
  rw [readMore] at read
  obtain ⟨⟨part, behind⟩, first, read⟩ := Option.bind_eq_some_iff.1 read
  dsimp only at read
  split at read
  · obtain ⟨opened, found, read⟩ := Option.bind_eq_some_iff.1 read
    obtain ⟨⟨others, left⟩, inner, read⟩ := Option.bind_eq_some_iff.1 read
    cases read
    obtain ⟨some, tail⟩ := below.ofMore inner
    obtain ⟨next, others, rfl⟩ := List.exists_cons_of_ne_nil some
    refine ⟨List.cons_ne_nil _ _, ?_⟩
    rw [debugRow_cons_cons, below.ofDoc first, eq_append_of_behind? found, tail]
    simp only [List.append_assoc]
  · obtain ⟨left, found, read⟩ := Option.bind_eq_some_iff.1 read
    cases read
    refine ⟨List.cons_ne_nil _ _, ?_⟩
    rw [debugRow_single, below.ofDoc first, eq_append_of_behind? found, List.append_assoc]

theorem parts_step (below : ReadsWritten depth) {parts : List Doc}
    (read : readParts (depth + 1) chars = some (parts, rest)) :
    chars = debugRow parts ++ rest := by
  rw [readParts] at read
  split at read
  · obtain ⟨left, found, read⟩ := Option.bind_eq_some_iff.1 read
    cases read
    exact eq_append_of_behind? found
  · exact (below.ofMore read).2

end ReadsWritten

theorem readsWritten (depth : Nat) : ReadsWritten depth := by
  induction depth with
  | zero =>
    refine ⟨fun read => ?_, fun read => ?_, fun read => ?_⟩
    · simp [readDoc] at read
    · simp [readParts] at read
    · simp [readMore] at read
  | succ depth below => exact ⟨below.doc_step, below.parts_step, below.more_step⟩

/-! ## What is written is read -/

-- The equations of the readers are made here, once, and not in each of the lemmas that need them.
attribute [local simp] readDoc readParts readMore

section

variable {depth : Nat} {contents : Doc} {parts : List Doc} (rest : List Char)

theorem readDoc_text (value : String) :
    readDoc (depth + 1) ((Doc.text value).debugChars ++ rest) = some (.text value, rest) := by
  have opened : (Doc.text value).debugChars ++ rest =
      "\"".toList ++ (value.toList.flatMap debugChar ++ '"' :: rest) := by
    rw [debugChars_text]
    simp
  have first : ("\"".toList ++ (value.toList.flatMap debugChar ++ '"' :: rest)).head? = some '"' :=
    rfl
  rw [opened, readDoc]
  simp only [first, behind?_append, Option.bind_eq_bind, Option.bind_some, readText_flatMap,
    String.ofList_toList]
  rfl

theorem readDoc_line (hard : Bool) :
    readDoc (depth + 1) ((Doc.line hard).debugChars ++ rest) = some (.line hard, rest) := by
  cases hard with
  | true =>
    have first : ("hardline".toList ++ rest).head? = some 'h' := rfl
    change readDoc (depth + 1) ("hardline".toList ++ rest) = _
    rw [readDoc]
    simp only [first, behind?_append, Option.bind_eq_bind, Option.bind_some]
    rfl
  | false =>
    have first : ("line".toList ++ rest).head? = some 'l' := rfl
    change readDoc (depth + 1) ("line".toList ++ rest) = _
    rw [readDoc]
    simp only [first, behind?_append, Option.bind_eq_bind, Option.bind_some]
    rfl

theorem readBetween_debugChars (word : String)
    (inside : ∀ rest, readDoc depth (contents.debugChars ++ rest) = some (contents, rest)) :
    readBetween (readDoc depth) word (word.toList ++ contents.debugChars ++ ")".toList ++ rest) =
      some (contents, rest) := by
  simp only [readBetween, List.append_assoc, behind?_append, Option.bind_eq_bind, Option.bind_some,
    inside]
  rfl

theorem readDoc_group
    (inside : ∀ rest, readDoc depth (contents.debugChars ++ rest) = some (contents, rest)) :
    readDoc (depth + 1) ((Doc.group contents).debugChars ++ rest) =
      some (.group contents, rest) := by
  have first : ("group(".toList ++ contents.debugChars ++ ")".toList ++ rest).head? =
      some 'g' := rfl
  rw [debugChars_group, readDoc]
  simp only [first, readBetween_debugChars rest "group(" inside, Option.bind_eq_bind,
    Option.bind_some]
  rfl

theorem readDoc_indent
    (inside : ∀ rest, readDoc depth (contents.debugChars ++ rest) = some (contents, rest)) :
    readDoc (depth + 1) ((Doc.indent contents).debugChars ++ rest) =
      some (.indent contents, rest) := by
  have first : ("indent(".toList ++ contents.debugChars ++ ")".toList ++ rest).head? =
      some 'i' := rfl
  rw [debugChars_indent, readDoc]
  simp only [first, readBetween_debugChars rest "indent(" inside, Option.bind_eq_bind,
    Option.bind_some]
  rfl

theorem readDoc_concat (row : readParts depth (debugRow parts ++ rest) = some (parts, rest)) :
    readDoc (depth + 1) ((Doc.concat parts).debugChars ++ rest) = some (.concat parts, rest) := by
  have first : ("concat([".toList ++ (debugRow parts ++ rest)).head? = some 'c' := rfl
  rw [debugChars_concat, List.append_assoc, readDoc]
  simp only [first, behind?_append, Option.bind_eq_bind, Option.bind_some, row]
  rfl

end

/-- The written form of a document starts with a letter or a quote. -/
theorem head_debugChars (doc : Doc) :
    ∃ c rest, doc.debugChars = c :: rest ∧ c ≠ ']' := by
  cases doc with
  | text value => exact ⟨_, _, rfl, by decide⟩
  | concat parts => exact ⟨_, _, rfl, by decide⟩
  | group contents => exact ⟨_, _, rfl, by decide⟩
  | indent contents => exact ⟨_, _, rfl, by decide⟩
  | line hard => cases hard <;> exact ⟨_, _, rfl, by decide⟩

theorem length_debugChars_pos (doc : Doc) : 0 < doc.debugChars.length := by
  obtain ⟨c, rest, written, -⟩ := head_debugChars doc
  rw [written]
  exact Nat.succ_pos _

theorem readParts_nil (depth : Nat) (rest : List Char) :
    readParts (depth + 1) (debugRow [] ++ rest) = some ([], rest) := by
  have first : ("])".toList ++ rest).head? = some ']' := rfl
  change readParts (depth + 1) ("])".toList ++ rest) = _
  rw [readParts]
  simp only [first, behind?_append, Option.bind_eq_bind, Option.bind_some]
  rfl

theorem readParts_cons (depth : Nat) (part : Doc) (parts : List Doc) (rest : List Char) :
    readParts (depth + 1) (debugRow (part :: parts) ++ rest) =
      readMore depth (debugRow (part :: parts) ++ rest) := by
  obtain ⟨c, tail, written, letter⟩ := head_debugChars part
  have first : (debugRow (part :: parts) ++ rest).head? = some c := by
    cases parts with
    | nil => simp [debugRow_single, written]
    | cons next parts => simp [debugRow_cons_cons, written]
  rw [readParts]
  split
  next isClose => exact absurd (Option.some.inj (first.symm.trans isClose)) letter
  next => rfl

theorem readMore_single {depth : Nat} {part : Doc} {rest : List Char}
    (inside : ∀ rest, readDoc depth (part.debugChars ++ rest) = some (part, rest)) :
    readMore (depth + 1) (debugRow [part] ++ rest) = some ([part], rest) := by
  have last : ("])".toList ++ rest).head? = some ']' := rfl
  rw [debugRow_single, List.append_assoc, readMore, inside]
  simp only [last, behind?_append, Option.bind_eq_bind, Option.bind_some]
  rfl

theorem readMore_cons {depth : Nat} {part next : Doc} {parts : List Doc} {rest : List Char}
    (inside : ∀ rest, readDoc depth (part.debugChars ++ rest) = some (part, rest))
    (others : readMore depth (debugRow (next :: parts) ++ rest) = some (next :: parts, rest)) :
    readMore (depth + 1) (debugRow (part :: next :: parts) ++ rest) =
      some (part :: next :: parts, rest) := by
  have comma : (", ".toList ++ (debugRow (next :: parts) ++ rest)).head? = some ',' := rfl
  rw [debugRow_cons_cons, List.append_assoc, List.append_assoc, readMore, inside]
  simp only [comma, behind?_append, Option.bind_eq_bind, Option.bind_some, others]
  rfl

mutual

/-- What is written of a document is read as the document, if the reader goes down far enough. -/
theorem readDoc_debugChars :
    (doc : Doc) → (depth : Nat) → doc.debugChars.length ≤ depth → (rest : List Char) →
      readDoc depth (doc.debugChars ++ rest) = some (doc, rest)
  | doc, 0, deep, _ => absurd (length_debugChars_pos doc) (Nat.not_lt.2 deep)
  | .text value, _ + 1, _, rest => readDoc_text rest value
  | .line hard, _ + 1, _, rest => readDoc_line rest hard
  | .concat parts, depth + 1, deep, rest => by
      rw [debugChars_concat, List.length_append] at deep
      obtain ⟨depth, rfl⟩ : ∃ below, depth = below + 1 :=
        Nat.exists_eq_add_of_le' (by simp at deep; omega)
      refine readDoc_concat rest ?_
      cases parts with
      | nil => exact readParts_nil depth rest
      | cons part parts =>
        rw [readParts_cons]
        exact readMore_debugRow part parts depth (by simp at deep; omega) rest
  | .group contents, depth + 1, deep, rest => by
      rw [debugChars_group] at deep
      exact readDoc_group rest (readDoc_debugChars contents depth (by simp at deep; omega))
  | .indent contents, depth + 1, deep, rest => by
      rw [debugChars_indent] at deep
      exact readDoc_indent rest (readDoc_debugChars contents depth (by simp at deep; omega))

theorem readMore_debugRow :
    (part : Doc) → (parts : List Doc) → (depth : Nat) →
      (debugRow (part :: parts)).length ≤ depth → (rest : List Char) →
      readMore depth (debugRow (part :: parts) ++ rest) = some (part :: parts, rest)
  | part, [], 0, deep, _ => by simp [debugRow] at deep
  | part, [], depth + 1, deep, rest => by
      rw [debugRow_single] at deep
      exact readMore_single (readDoc_debugChars part depth (by simp at deep; omega))
  | part, next :: parts, 0, deep, _ => by simp [debugRow] at deep
  | part, next :: parts, depth + 1, deep, rest => by
      rw [debugRow_cons_cons] at deep
      have more := length_debugChars_pos part
      exact readMore_cons (readDoc_debugChars part depth (by simp at deep; omega))
        (readMore_debugRow next parts depth (by simp at deep; omega) rest)

end

/-- Reading accepts exactly what writing produces. -/
theorem read?_eq_some_iff {text : String} {doc : Doc} :
    read? text = some doc ↔ text = doc.debug := by
  constructor
  · intro read
    unfold read? at read
    split at read
    next found =>
      cases read
      have written := (readsWritten _).ofDoc found
      rw [List.append_nil] at written
      rw [debug, ← written, String.ofList_toList]
    next => cases read
  · rintro rfl
    have found := readDoc_debugChars doc doc.debugChars.length (Nat.le_refl _) []
    rw [List.append_nil] at found
    rw [read?, debug, String.toList_ofList, found]

/--
The written form of a document can be read back: reading accepts a text exactly if it is the written
form of a document, and gives this document.  So two documents that are written alike are the same.
-/
theorem debug_identifies :
    (∀ text doc, read? text = some doc ↔ text = doc.debug) ∧ Function.Injective debug :=
  ⟨fun _ _ => read?_eq_some_iff, fun _ _ alike =>
    Option.some.inj ((read?_eq_some_iff.2 rfl).symm.trans (read?_eq_some_iff.2 alike))⟩

end RubyFormat.Doc
