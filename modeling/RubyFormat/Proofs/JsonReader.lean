import Mathlib.Data.List.Basic
import Mathlib.Tactic.IntervalCases
import RubyFormat.Data.Json

/-!
# A reader of JSON

The reader goes through a text from left to right.  It knows white space anywhere between two
tokens, all escapes of characters, and objects that repeat a key.  Texts, integers and rows of parts
are read back from what is written of them.
-/

namespace RubyFormat

/-! ## The reader -/

namespace Json

/-- Whether a character is white space between tokens. -/
def isGap (c : Char) : Bool :=
  c == ' ' || c == '\t' || c == '\n' || c == '\r'

/-- The text behind the white space at its start. -/
def skip (chars : List Char) : List Char :=
  chars.dropWhile isGap

/-- The value of a hexadecimal digit. -/
def hexDigit? (c : Char) : Option Nat :=
  if '0' ≤ c ∧ c ≤ '9' then some (c.toNat - '0'.toNat)
  else if 'a' ≤ c ∧ c ≤ 'f' then some (c.toNat - 'a'.toNat + 10)
  else if 'A' ≤ c ∧ c ≤ 'F' then some (c.toNat - 'A'.toNat + 10)
  else none

/-- Read a unit of four hexadecimal digits. -/
def readUnit : List Char → Option (Nat × List Char)
  | a :: b :: c :: d :: rest => do
      let high := 16 * (← hexDigit? a) + (← hexDigit? b)
      let low := 16 * (← hexDigit? c) + (← hexDigit? d)
      return (256 * high + low, rest)
  | _ => none

/-- Read a character by its code point; one beyond four digits is a pair of units. -/
def readCode (chars : List Char) : Option (Char × List Char) := do
  let (unit, rest) ← readUnit chars
  if 0xD800 ≤ unit ∧ unit < 0xDC00 then
    let (second, rest) ← readUnit (← ['\\', 'u'].isPrefixOf? rest)
    if 0xDC00 ≤ second ∧ second < 0xE000 then
      return (Char.ofNat (0x10000 + 0x400 * (unit - 0xD800) + (second - 0xDC00)), rest)
    else
      none
  else if 0xDC00 ≤ unit ∧ unit < 0xE000 then
    none
  else
    return (Char.ofNat unit, rest)

/-- The character that a mark behind a backslash stands for. -/
def escaped? : Char → Option Char
  | '"' => some '"'
  | '\\' => some '\\'
  | '/' => some '/'
  | 'b' => some '\x08'
  | 'f' => some '\x0c'
  | 'n' => some '\n'
  | 'r' => some '\r'
  | 't' => some '\t'
  | _ => none

/-- Read one character of a text; controls, quotes and backslashes do not stand by themselves. -/
def readChar : List Char → Option (Char × List Char)
  | [] => none
  | '\\' :: 'u' :: rest => readCode rest
  | '\\' :: mark :: rest => (escaped? mark).map (·, rest)
  | c :: rest => if c.toNat < 0x20 ∨ c = '"' ∨ c = '\\' then none else some (c, rest)

/-- Read the characters of a text, up to the given number, and the quote behind them. -/
def readChars : Nat → List Char → Option (List Char × List Char)
  | 0, _ => none
  | bound + 1, chars =>
      if chars.head? = some '"' then
        some ([], chars.tail)
      else do
        let (c, rest) ← readChar chars
        let (value, rest) ← readChars bound rest
        return (c :: value, rest)

/-- Read a text between quotes. -/
def readText (chars : List Char) : Option (String × List Char) := do
  let rest ← ['"'].isPrefixOf? chars
  let (value, rest) ← readChars rest.length rest
  return (String.ofList value, rest)

/-- Whether a number is done before a text: it has no more digits, no fraction and no exponent. -/
def endsNumber (chars : List Char) : Bool :=
  chars.head?.all fun c => !c.isDigit && c != '.' && c != 'e' && c != 'E'

/-- Read a natural number, which has no needless zeros. -/
def readNatural (chars : List Char) : Option (Nat × List Char) :=
  let digits := chars.takeWhile Char.isDigit
  let rest := chars.dropWhile Char.isDigit
  if digits = [] ∨ digits.head? = some '0' ∧ digits ≠ ['0'] ∨ endsNumber rest = false then none
  else some (Nat.ofDigitChars 10 digits 0, rest)

/-- Read an integer. -/
def readInt (chars : List Char) : Option (Int × List Char) :=
  match ['-'].isPrefixOf? chars with
  | some rest => (readNatural rest).map fun (value, rest) => (-value, rest)
  | none => (readNatural chars).map fun (value, rest) => (value, rest)

/-- Read a word that stands for data. -/
def readWord (word : String) (data : Data) (chars : List Char) : Option (Data × List Char) :=
  (word.toList.isPrefixOf? chars).map (data, ·)

section

variable (close : Char) (read : List Char → Option (α × List Char))

/-- Read parts between commas, up to the given number, and what closes them. -/
def readParts : Nat → List Char → Option (List α × List Char)
  | 0, _ => none
  | bound + 1, chars => do
      let (part, rest) ← read (skip chars)
      match skip rest with
      | [] => none
      | c :: rest =>
          if c = close then
            return ([part], rest)
          else if c = ',' then do
            let (parts, rest) ← readParts bound rest
            return (part :: parts, rest)
          else
            none

/-- Read a row of parts, of which there may be none, and what closes it. -/
def readRow (chars : List Char) : Option (List α × List Char) :=
  if (skip chars).head? = some close then
    some ([], (skip chars).tail)
  else
    readParts close read chars.length chars

/-- Read a key, a colon and a value. -/
def readEntry (chars : List Char) : Option ((String × α) × List Char) := do
  let (key, rest) ← readText chars
  let (value, rest) ← read (skip (← [':'].isPrefixOf? (skip rest)))
  return ((key, value), rest)

end

/-- Read data off the start of a text, going down no further than the given depth. -/
def readData : Nat → List Char → Option (Data × List Char)
  | 0, _ => none
  | depth + 1, chars =>
      match chars.head? with
      | some '"' => (readText chars).map fun (value, rest) => (.text value, rest)
      | some '[' =>
          (readRow ']' (readData depth) chars.tail).map fun (items, rest) => (.list items, rest)
      | some '\x7b' =>
          (readRow '\x7d' (readEntry (readData depth)) chars.tail).map fun (entries, rest) =>
            (.object (mergeEntries entries), rest)
      | some 'n' => readWord "null" .null chars
      | some 't' => readWord "true" (.bool true) chars
      | some 'f' => readWord "false" (.bool false) chars
      | _ => (readInt chars).map fun (value, rest) => (.int value, rest)

end Json

/-- The data that a JSON text stands for; all of its numbers have to be integers. -/
def Data.ofJson? (text : String) : Option Data :=
  match Json.readData text.toList.length (Json.skip text.toList) with
  | some (data, rest) => if Json.skip rest = [] then some data else none
  | none => none

example : Data.ofJson?
    " \x7b \"\\u00e9\\ud83c\\udf89\\/\":\t[ -0, 12 ,\"\\b\"],\r\n\"a\":null , \"a\":\x7b\x7d\x7d " =
      some (.object [("é🎉/", .list [.int 0, .int 12, .text "\x08"]), ("a", .object [])]) := by
  decide +kernel

namespace Json

/-! ## White space -/

theorem skip_append {gap : List Char} (blank : ∀ c ∈ gap, isGap c = true) (chars : List Char) :
    skip (gap ++ chars) = skip chars :=
  List.dropWhile_append_of_pos blank

theorem skip_cons {c : Char} (solid : isGap c = false) (chars : List Char) :
    skip (c :: chars) = c :: chars := by
  rw [skip, List.dropWhile_cons, solid]
  rfl

theorem isGap_of_mem_margin {depth : Nat} : ∀ c ∈ Data.jsonMargin depth, isGap c = true := by
  intro c mem
  rw [List.eq_of_mem_replicate mem]
  rfl

/-! ## Texts -/

/-- A control character is read from its four digits. -/
theorem readCode_hexadecimal {code : Nat} (control : code < 0x20) (rest : List Char) :
    readCode (Text.hexadecimal 4 code ++ rest) = some (Char.ofNat code, rest) := by
  interval_cases code <;> rfl

/-- A character is written by a mark, by its code point or as it is. -/
theorem jsonChar_cases (c : Char) :
    (∃ mark, escaped? mark = some c ∧ Data.jsonChar c = ['\\', mark]) ∨
      (c.toNat < 0x20 ∧ Data.jsonChar c = '\\' :: 'u' :: Text.hexadecimal 4 c.toNat) ∨
      (¬ (c.toNat < 0x20 ∨ c = '"' ∨ c = '\\') ∧ Data.jsonChar c = [c]) := by
  unfold Data.jsonChar
  split
  next same => exact .inl ⟨'\\', by rw [same]; rfl, rfl⟩
  split
  next same => exact .inl ⟨'"', by rw [same]; rfl, rfl⟩
  split
  next same => exact .inl ⟨'n', by rw [same]; rfl, rfl⟩
  split
  next same => exact .inl ⟨'r', by rw [same]; rfl, rfl⟩
  split
  next same => exact .inl ⟨'t', by rw [same]; rfl, rfl⟩
  split
  next control => exact .inr (.inl ⟨control, rfl⟩)
  next noBackslash noQuote _ _ _ printable =>
    exact .inr (.inr ⟨by simp [noBackslash, noQuote, printable], rfl⟩)

/-- One character is read from what is written of it. -/
theorem readChar_jsonChar (c : Char) (rest : List Char) :
    readChar (Data.jsonChar c ++ rest) = some (c, rest) := by
  rcases jsonChar_cases c with ⟨mark, found, written⟩ | ⟨control, written⟩ | ⟨plain, written⟩
  · rw [written, List.cons_append, List.singleton_append, readChar, found]
    · rfl
    · rintro rfl
      cases found
  · rw [written]
    change readCode (Text.hexadecimal 4 c.toNat ++ rest) = _
    rw [readCode_hexadecimal control, Char.ofNat_toNat]
  · have noBackslash : c ≠ '\\' := fun same => plain (.inr (.inr same))
    rw [written, List.singleton_append, readChar, if_neg plain]
    · intro rest isBackslash
      exact absurd isBackslash noBackslash
    · intro mark rest isBackslash
      exact absurd isBackslash noBackslash

/-- What is written of a character starts with no quote. -/
theorem exists_jsonChar_eq_cons (c : Char) :
    ∃ first more, Data.jsonChar c = first :: more ∧ first ≠ '"' := by
  rcases jsonChar_cases c with ⟨mark, -, written⟩ | ⟨-, written⟩ | ⟨plain, written⟩
  · exact ⟨_, _, written, by decide⟩
  · exact ⟨_, _, written, by decide⟩
  · exact ⟨_, _, written, fun same => plain (.inr (.inl same))⟩

theorem readChars_flatMap (value rest : List Char) {bound : Nat} (enough : value.length < bound) :
    readChars bound (value.flatMap Data.jsonChar ++ '"' :: rest) = some (value, rest) := by
  induction value generalizing bound with
  | nil =>
      obtain ⟨bound, rfl⟩ := Nat.exists_eq_succ_of_ne_zero (Nat.ne_zero_of_lt enough)
      rfl
  | cons c value ih =>
      obtain ⟨bound, rfl⟩ := Nat.exists_eq_succ_of_ne_zero (Nat.ne_zero_of_lt enough)
      obtain ⟨first, more, written, noQuote⟩ := exists_jsonChar_eq_cons c
      have goesOn : (Data.jsonChar c ++ (value.flatMap Data.jsonChar ++ '"' :: rest)).head? ≠
          some '"' := by
        simpa [written] using noQuote
      rw [List.flatMap_cons, List.append_assoc, readChars, if_neg goesOn, readChar_jsonChar]
      simp only [Option.bind_eq_bind, Option.bind_some]
      rw [ih (Nat.lt_of_succ_lt_succ enough)]
      rfl

theorem length_le_flatMap (value : List Char) :
    value.length ≤ (value.flatMap Data.jsonChar).length := by
  induction value with
  | nil => exact Nat.le_refl _
  | cons c value ih =>
      obtain ⟨first, more, written, -⟩ := exists_jsonChar_eq_cons c
      rw [List.flatMap_cons, List.length_append, written, List.length_cons, List.length_cons]
      omega

/-- A text is read from what is written of it between quotes. -/
theorem readText_jsonText (value : String) (rest : List Char) :
    readText (Data.jsonText value ++ rest) = some (value, rest) := by
  have found : ['"'].isPrefixOf? (Data.jsonText value ++ rest) =
      some (value.toList.flatMap Data.jsonChar ++ '"' :: rest) :=
    List.isPrefixOf?_eq_some_iff_append_eq.2 (by simp [Data.jsonText])
  have enough := length_le_flatMap value.toList
  rw [readText, found]
  simp only [Option.bind_eq_bind, Option.bind_some]
  rw [readChars_flatMap _ _ (by rw [List.length_append, List.length_cons]; omega)]
  simp

/-! ## Numbers -/

/-- The digits of a number that is not zero start with no zero. -/
theorem head?_toDigits {value : Nat} (positive : 0 < value) :
    (Nat.toDigits 10 value).head? ≠ some '0' := by
  induction value using Nat.strongRecOn with
  | ind value ih =>
    by_cases small : value < 10
    · rw [Nat.toDigits_of_lt_base small]
      interval_cases value <;> decide
    · have upper := ih (value / 10) (by omega) (by omega)
      rw [Nat.toDigits_of_base_le (by decide) (Nat.le_of_not_lt small), List.head?_append]
      cases digits : Nat.toDigits 10 (value / 10) with
      | nil => exact absurd digits (List.ne_nil_of_length_pos Nat.length_toDigits_pos)
      | cons digit digits => simpa [digits] using upper

theorem isDigit_of_mem {value : Nat} : ∀ c ∈ Nat.toDigits 10 value, c.isDigit = true :=
  fun _ mem => Nat.isDigit_of_mem_toDigits (by decide) (by decide) mem

theorem not_isDigit_head {rest : List Char} (ends : endsNumber rest = true) :
    rest.takeWhile Char.isDigit = [] ∧ rest.dropWhile Char.isDigit = rest := by
  cases rest with
  | nil => exact ⟨rfl, rfl⟩
  | cons c rest =>
      have noDigit : c.isDigit = false := by
        simp only [endsNumber, List.head?_cons, Option.all_some, Bool.and_eq_true] at ends
        simpa using ends.1.1.1
      simp [noDigit]

theorem readNatural_toDigits (value : Nat) {rest : List Char} (ends : endsNumber rest = true) :
    readNatural (Nat.toDigits 10 value ++ rest) = some (value, rest) := by
  obtain ⟨noMore, left⟩ := not_isDigit_head ends
  have some : Nat.toDigits 10 value ≠ [] := List.ne_nil_of_length_pos Nat.length_toDigits_pos
  have noZero : ¬ ((Nat.toDigits 10 value).head? = Option.some '0' ∧
      Nat.toDigits 10 value ≠ ['0']) := by
    rintro ⟨isZero, longer⟩
    rcases Nat.eq_zero_or_pos value with rfl | positive
    · exact longer rfl
    · exact head?_toDigits positive isZero
  simp only [readNatural]
  rw [List.takeWhile_append_of_pos isDigit_of_mem, List.dropWhile_append_of_pos isDigit_of_mem,
    noMore, left, List.append_nil, if_neg (by simp [some, noZero, ends]),
    Nat.ofDigitChars_toDigits (by decide) (by decide)]

/-- An integer is read from its decimal digits. -/
theorem readInt_decimal (value : Int) {rest : List Char} (ends : endsNumber rest = true) :
    readInt (Data.decimal value ++ rest) = some (value, rest) := by
  cases value with
  | ofNat value =>
      obtain ⟨digit, more, digits⟩ :=
        List.exists_cons_of_length_pos (@Nat.length_toDigits_pos 10 value)
      have isDigit : digit.isDigit = true := isDigit_of_mem digit (digits ▸ List.mem_cons_self)
      have noSign : ['-'].isPrefixOf? (Nat.toDigits 10 value ++ rest) = none := by
        have differ : '-' ≠ digit := by
          rintro rfl
          cases isDigit
        simp [digits, List.isPrefixOf?, differ]
      change readInt (Nat.toDigits 10 value ++ rest) = _
      rw [readInt, noSign]
      dsimp only
      rw [readNatural_toDigits value ends]
      rfl
  | negSucc value =>
      change (readNatural (Nat.toDigits 10 (value + 1) ++ rest)).map _ = _
      rw [readNatural_toDigits _ ends]
      rfl

/-! ## Rows -/

/-- Texts between commas, with white space around them, and what closes them. -/
inductive Row (close : Char) (texts : List (List Char)) : List Char → Prop where
  | intro {lead gap tail : List Char} (blankLead : ∀ c ∈ lead, isGap c = true)
      (blankGap : ∀ c ∈ gap, isGap c = true) (blankTail : ∀ c ∈ tail, isGap c = true) :
      Row close texts (lead ++ (',' :: gap).intercalate texts ++ tail ++ [close])

theorem length_le_intercalate (separator : List Char) {text : List Char} {texts : List (List Char)}
    (mem : text ∈ texts) : text.length ≤ (separator.intercalate texts).length := by
  induction texts with
  | nil => cases mem
  | cons first texts ih =>
      cases texts with
      | nil =>
          rw [List.mem_singleton.1 mem, List.intercalate_singleton]
      | cons next texts =>
          rw [List.intercalate_cons_cons, List.length_append, List.length_append]
          rcases List.mem_cons.1 mem with rfl | mem
          · omega
          · have := ih mem
            omega

theorem Row.length_lt {close : Char} {texts : List (List Char)} {row text : List Char}
    (isRow : Row close texts row) (mem : text ∈ texts) : text.length < row.length := by
  cases isRow with
  | @intro lead gap tail =>
    have := length_le_intercalate (',' :: gap) mem
    simp only [List.length_append, List.length_singleton]
    omega

section

variable {close : Char} {read : List Char → Option (α × List Char)} {write : α → List Char}
  {parts : List α} {rest : List Char}

/-- A part is read from a text, whatever white space is in front of it and whatever ends it. -/
def ReadsAs (read : List Char → Option (α × List Char)) (text : List Char) (part : α) : Prop :=
  ∀ rest, endsNumber rest = true → read (skip (text ++ rest)) = some (part, rest)

theorem readParts_append {gap : List Char} (blank : ∀ c ∈ gap, isGap c = true) (bound : Nat)
    (chars : List Char) :
    readParts close read bound (gap ++ chars) = readParts close read bound chars := by
  cases bound with
  | zero => rfl
  | succ bound => rw [readParts, readParts, skip_append blank]

theorem readParts_intercalate {gap tail : List Char} (blankGap : ∀ c ∈ gap, isGap c = true)
    (blankTail : ∀ c ∈ tail, isGap c = true) (solid : isGap close = false) (noComma : close ≠ ',')
    (ends : endsNumber (tail ++ close :: rest) = true)
    (each : ∀ part ∈ parts, ReadsAs read (write part) part) (some : parts ≠ []) {bound : Nat}
    (enough : parts.length ≤ bound) :
    readParts close read bound
        ((',' :: gap).intercalate (parts.map write) ++ (tail ++ close :: rest)) =
      .some (parts, rest) := by
  induction parts generalizing bound with
  | nil => exact absurd rfl some
  | cons part parts ih =>
      obtain ⟨bound, rfl⟩ := Nat.exists_eq_succ_of_ne_zero (Nat.ne_zero_of_lt enough)
      rw [List.forall_mem_cons] at each
      cases parts with
      | nil =>
          rw [List.map_singleton, List.intercalate_singleton, readParts, each.1 _ ends]
          simp only [Option.bind_eq_bind, Option.bind_some]
          rw [skip_append blankTail, skip_cons solid]
          simp
      | cons next parts =>
          have more := ih each.2 (List.cons_ne_nil _ _) (Nat.le_of_succ_le_succ enough)
          rw [List.map_cons, List.map_cons, List.intercalate_cons_cons, List.append_assoc,
            List.append_assoc, List.cons_append, readParts, each.1 _ rfl]
          simp only [Option.bind_eq_bind, Option.bind_some]
          rw [skip_cons rfl]
          simp only [if_neg noComma.symm, if_true]
          rw [readParts_append blankGap, ← List.map_cons, more]
          rfl

theorem endsNumber_append {tail : List Char} (blank : ∀ c ∈ tail, isGap c = true)
    (ends : endsNumber rest = true) : endsNumber (tail ++ rest) = true := by
  cases tail with
  | nil => exact ends
  | cons c tail =>
      have isBlank := blank c List.mem_cons_self
      simp only [isGap, Bool.or_eq_true, beq_iff_eq] at isBlank
      rcases isBlank with ((rfl | rfl) | rfl) | rfl <;> rfl

theorem length_le_length_intercalate (separator : List Char) (texts : List (List Char))
    (some : separator ≠ []) : texts.length ≤ (separator.intercalate texts).length + 1 := by
  induction texts with
  | nil => exact Nat.zero_le _
  | cons text texts ih =>
      cases texts with
      | nil => exact Nat.le_add_left _ _
      | cons next texts =>
          have first := List.length_pos_of_ne_nil some
          rw [List.intercalate_cons_cons, List.length_append, List.length_append]
          simp only [List.length_cons] at ih ⊢
          omega

/-- The parts of a row are read, if none of them starts with what closes the row. -/
theorem Row.readRow_append {row : List Char} (isRow : Row close (parts.map write) row)
    (solid : isGap close = false) (noComma : close ≠ ',')
    (ends : endsNumber (close :: rest) = true) (some : parts ≠ [])
    (each : ∀ part ∈ parts, ReadsAs read (write part) part)
    (opens : ∀ part ∈ parts, ∀ more, (skip (write part ++ more)).head? ≠ .some close) :
    readRow close read (row ++ rest) = .some (parts, rest) := by
  cases isRow with
  | @intro lead gap tail blankLead blankGap blankTail =>
    have whole : lead ++ (',' :: gap).intercalate (parts.map write) ++ tail ++ [close] ++ rest =
        lead ++ ((',' :: gap).intercalate (parts.map write) ++ (tail ++ close :: rest)) := by
      simp
    have opened : (skip ((',' :: gap).intercalate (parts.map write) ++
        (tail ++ close :: rest))).head? ≠ .some close := by
      obtain ⟨part, parts, rfl⟩ := List.exists_cons_of_ne_nil some
      have first := opens part List.mem_cons_self
      cases parts with
      | nil => simpa using first _
      | cons next parts => simpa [List.intercalate_cons_cons] using first _
    have count := length_le_length_intercalate (',' :: gap) (parts.map write) (List.cons_ne_nil _ _)
    rw [whole, readRow, skip_append blankLead, if_neg opened, readParts_append blankLead]
    refine readParts_intercalate blankGap blankTail solid noComma
      (endsNumber_append blankTail ends) each some ?_
    rw [List.length_map] at count
    simp only [List.length_append, List.length_cons]
    omega

end

end Json

end RubyFormat
