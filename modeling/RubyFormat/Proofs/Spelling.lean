import RubyFormat.Proofs.Lexed
import RubyFormat.Proofs.Trimmed

/-!
# What lexemes are made of

Only strings and regular expressions have white space inside, and no lexeme leaves any at the end of
a line.  The first character of a lexeme tells it from a gap, a comment and a line break.
-/

namespace RubyFormat

namespace Text

section Decidable

variable {p : Char → Prop} [DecidablePred p]

/-- A property is tested at the characters of a text only, not at all characters there are. -/
instance decidableForallMem (text : List Char) : Decidable (∀ c ∈ text, p c) :=
  List.decidableBAll p text

instance decidableForallMemOption (char : Option Char) : Decidable (∀ c ∈ char, p c) :=
  Option.decidableForallMem char

end Decidable

/-- The characters of a text are no white space. -/
def Solid (text : List Char) : Prop :=
  ∀ c ∈ text, isBlank c = false

theorem solid_nil : Solid [] := nofun

theorem Solid.append {left right : List Char} (first : Solid left) (second : Solid right) :
    Solid (left ++ right) :=
  List.forall_mem_append.2 ⟨first, second⟩

theorem Solid.cons {c : Char} {text : List Char} (first : isBlank c = false) (rest : Solid text) :
    Solid (c :: text) :=
  List.forall_mem_cons.2 ⟨first, rest⟩

theorem isBlank_of_isNameChar {c : Char} (isName : isNameChar c = true) : isBlank c = false := by
  have isAlpha : c.isAlpha = (c.isUpper || c.isLower) := rfl
  have isUpper : c.isUpper = decide (c.val ≥ 'A'.val ∧ c.val ≤ 'Z'.val) := rfl
  have isLower : c.isLower = (decide (c.val ≥ 'a'.val) && decide (c.val ≤ 'z'.val)) := rfl
  have range : 48 ≤ c.toNat ∧ c.toNat ≤ 122 := by
    simp only [isNameChar, isNameStart, isAlpha, isUpper, isLower, Char.isDigit, Bool.or_eq_true,
      Bool.and_eq_true, decide_eq_true_eq, beq_iff_eq, ge_iff_le,
      UInt32.le_iff_toNat_le] at isName
    rcases isName with ((upper | lower) | rfl) | digit
    · exact ⟨Nat.le_trans (by decide) upper.1, Nat.le_trans upper.2 (by decide)⟩
    · exact ⟨Nat.le_trans (by decide) lower.1, Nat.le_trans lower.2 (by decide)⟩
    · decide
    · exact ⟨Nat.le_trans (by decide) digit.1, Nat.le_trans digit.2 (by decide)⟩
  simp only [isBlank, blankRanges, CodeRange.holds, List.any_cons, List.any_nil, Bool.or_false,
    Bool.or_eq_false_iff, Bool.and_eq_false_iff, decide_eq_false_iff_not]
  omega

/-- The characters that a run takes are no white space, if the run passes over none. -/
theorem solid_take_takeWhile {p : Char → Bool} (solid : ∀ c, p c = true → isBlank c = false)
    (text : List Char) : Solid (text.take (text.takeWhile p).length) := by
  intro c mem
  rw [← List.prefix_iff_eq_take.1 (List.takeWhile_prefix p)] at mem
  exact solid c (List.all_eq_true.1 List.all_takeWhile c mem)

theorem isTrimmed_of_solid {text : List Char} (solid : Solid text) : isTrimmed text = true := by
  induction text with
  | nil => rfl
  | cons c rest ih =>
      obtain ⟨first, others⟩ := List.forall_mem_cons.1 solid
      simp [isTrimmed, first, ih others]

/-- A text without line breaks is trimmed if it does not end with white space. -/
theorem isTrimmed_of_last {text : List Char} (single : '\n' ∉ text)
    (last : ∀ c ∈ text.getLast?, isBlank c = false) : isTrimmed text = true := by
  induction text with
  | nil => rfl
  | cons c rest ih =>
      obtain ⟨-, others⟩ := not_or.1 (mt List.mem_cons.2 single)
      cases rest with
      | nil => simp [isTrimmed, last c rfl]
      | cons d rest =>
          have next : d ≠ '\n' := fun same => others (same ▸ List.mem_cons_self)
          rw [isTrimmed, ih others fun c mem => last c (by simpa using mem)]
          simp [next]

end Text

namespace Lexeme

open Text (Solid)

/-! ## The ways to find a lexeme -/

/-- A lexeme is a number, a string, a variable, a symbol, a regular expression, a word or an
operator, and its first character tells which. -/
theorem find_cases {previous : Option Token} {first : Char} {text : List Char} {lexeme : Lexeme}
    (found : find previous first text = .ok lexeme) :
    (first.isDigit = true ∧ number text = .ok lexeme) ∨
      ((first = '"' ∨ first = '\'') ∧ string first text = .ok lexeme) ∨
      ((first = '@' ∨ first = '$') ∧ sigilName first text = .ok lexeme) ∨
      (first = ':' ∧ symbol? previous text = some lexeme) ∨
      (first = '/' ∧ endsValue previous = false ∧ regexp text = .ok lexeme) ∨
      (isNameStart first = true ∧ word previous first text = lexeme) ∨
      (isNameStart first = false ∧ operator first text = .ok lexeme) := by
  unfold find at found
  split at found
  next digit => exact .inl ⟨digit, found⟩
  split at found
  next quote => exact .inr (.inl ⟨quote, found⟩)
  split at found
  next sigil => exact .inr (.inr (.inl ⟨sigil, found⟩))
  split at found
  next colon =>
    subst colon
    split at found
    next isSymbol =>
      cases found
      exact .inr (.inr (.inr (.inl ⟨rfl, isSymbol⟩)))
    · exact .inr (.inr (.inr (.inr (.inr (.inr ⟨by decide, found⟩)))))
  split at found
  next isRegexp =>
    exact .inr (.inr (.inr (.inr (.inl ⟨isRegexp.1, isRegexp.2, found⟩))))
  unfold wordOrOperator at found
  split at found
  next isName => exact .inr (.inr (.inr (.inr (.inr (.inl ⟨isName, Except.ok.inj found⟩)))))
  next noName =>
    exact .inr (.inr (.inr (.inr (.inr (.inr ⟨by simpa using noName, found⟩)))))

/-! ## Lexemes without white space -/

theorem solid_take_nameLength (text : List Char) : Solid (text.take (nameLength text)) :=
  Text.solid_take_takeWhile (fun _ => Text.isBlank_of_isNameChar) text

theorem isNameChar_of_isDigit {c : Char} (digit : c.isDigit = true) : isNameChar c = true := by
  simp [isNameChar, digit]

theorem solid_take_digits (text : List Char) :
    Solid (text.take (text.takeWhile Char.isDigit).length) :=
  Text.solid_take_takeWhile
    (fun _ digit => Text.isBlank_of_isNameChar (isNameChar_of_isDigit digit)) text

theorem solid_take_digitsLength (text : List Char) : Solid (text.take (digitsLength text)) := by
  refine Text.solid_take_takeWhile (fun c isDigit => Text.isBlank_of_isNameChar ?_) text
  simp only [Bool.or_eq_true] at isDigit
  rcases isDigit with digit | underscore
  · exact isNameChar_of_isDigit digit
  · simp [isNameChar, isNameStart, underscore]

theorem solid_take_fractionLength (text : List Char) :
    Solid (text.take (fractionLength text)) := by
  unfold fractionLength
  split
  next digit rest =>
    split
    · rw [Nat.add_comm, List.take_succ_cons]
      exact (solid_take_digitsLength (digit :: rest)).cons (by decide)
    · exact Text.solid_nil
  · exact Text.solid_nil

theorem solid_take_exponentLength? {text : List Char} {length : Nat}
    (found : exponentLength? text = some length) : Solid (text.take length) := by
  cases text with
  | nil => simpa using Text.solid_nil
  | cons mark text =>
      by_cases isMark : mark = 'e' ∨ mark = 'E'
      · obtain ⟨rfl, -⟩ := (exponentLength?_eq_some isMark).1 found
        have sign : Solid (text.take (signLength text)) := by
          unfold signLength
          split
          next first rest =>
            split
            next isSign =>
              rw [List.take_succ_cons, List.take_zero]
              rcases isSign with rfl | rfl <;> exact Solid.cons (by decide) Text.solid_nil
            · exact Text.solid_nil
          · exact Text.solid_nil
        rw [Nat.add_assoc, Nat.add_comm, List.take_succ_cons, List.take_add]
        refine (sign.append (solid_take_digits _)).cons ?_
        rcases isMark with rfl | rfl <;> decide
      · rw [exponentLength?_of_not isMark] at found
        cases found
        exact Text.solid_nil

theorem solid_number {text : List Char} {lexeme : Lexeme} (found : number text = .ok lexeme) :
    Solid (text.take lexeme.extra) := by
  obtain ⟨kind, length⟩ := lexeme
  obtain ⟨_, exponent, rfl, isExponent, -, rfl⟩ := number_eq_ok.1 found
  rw [List.take_add, List.take_add]
  exact ((solid_take_digitsLength _).append (solid_take_fractionLength _)).append
    (solid_take_exponentLength? isExponent)

theorem solid_sigilName {sigil : Char} {text : List Char} {lexeme : Lexeme}
    (found : sigilName sigil text = .ok lexeme) : Solid (text.take lexeme.extra) := by
  obtain ⟨kind, extra⟩ := lexeme
  rw [sigilName_eq_ok] at found
  split at found
  next isClass =>
    obtain ⟨-, -, rfl⟩ := found
    cases text with
    | nil => exact Text.solid_nil
    | cons first rest =>
        obtain rfl : first = '@' := by simpa using isClass.2
        rw [Nat.add_comm, List.take_succ_cons]
        exact (solid_take_nameLength rest).cons (by decide)
  · obtain ⟨-, -, rfl⟩ := found
    exact solid_take_nameLength text

/-- A mark that ends a name is one of three characters. -/
theorem solid_take_mark {text : List Char} {length : Nat} (short : length ≤ 1)
    (isMark : length = 1 → ∀ c ∈ text.head?, c ∈ ['?', '!', '=']) : Solid (text.take length) := by
  have solid : ∀ c ∈ ['?', '!', '='], Text.isBlank c = false := by decide
  obtain rfl | rfl : length = 0 ∨ length = 1 := by omega
  · exact Text.solid_nil
  · cases text with
    | nil => exact Text.solid_nil
    | cons c rest => exact Solid.cons (solid c (isMark rfl c rfl)) Text.solid_nil

theorem solid_take_nameMark (text : List Char) : Solid (text.take (nameMark text)) := by
  unfold nameMark
  split
  · exact Text.solid_nil
  next mark rest =>
    split
    next isMark =>
      refine solid_take_mark (Nat.le_refl 1) fun _ c head => ?_
      obtain rfl : mark = c := by simpa using head
      rcases isMark.1 with rfl | rfl <;> decide
    · exact Text.solid_nil

theorem solid_take_symbolMark (text : List Char) : Solid (text.take (symbolMark text)) := by
  unfold symbolMark
  split
  · exact Text.solid_nil
  next mark rest =>
    dsimp only
    split
    next isMark =>
      refine solid_take_mark (Nat.le_refl 1) fun _ c head => ?_
      obtain rfl : mark = c := by simpa using head
      rcases isMark.1 with rfl | rfl | rfl <;> decide
    · exact Text.solid_nil

/-- An operator that a text starts with is made of the first characters of the text. -/
theorem take_of_find? {operators : List String} {text : List Char} {operator : String}
    (found : (operators.find? fun operator => operator.toList.isPrefixOf text) = some operator) :
    text.take operator.length = operator.toList := by
  have starts := List.find?_some found
  rw [List.isPrefixOf_iff_prefix, List.prefix_iff_eq_take, String.length_toList] at starts
  exact starts.symm

theorem solid_symbol? {previous : Option Token} {text : List Char} {lexeme : Lexeme}
    (found : symbol? previous text = some lexeme) : Solid (text.take lexeme.extra) := by
  have solid : ∀ operator ∈ symbolOperators, ∀ c ∈ operator.toList, Text.isBlank c = false := by
    decide
  unfold symbol? at found
  split at found
  · cases found
  next first rest =>
    split at found
    · cases found
    · split at found
      · cases found
        rw [List.take_add]
        exact (solid_take_nameLength _).append (solid_take_symbolMark _)
      · split at found
        · cases found
        · obtain ⟨operator, isFirst, rfl⟩ := Option.map_eq_some_iff.1 found
          rw [take_of_find? isFirst]
          exact solid operator (List.mem_of_find?_eq_some isFirst)

theorem solid_word (previous : Option Token) (first : Char) (text : List Char) :
    Solid (text.take (word previous first text).extra) := by
  have name : Solid (text.take (wordLength text)) := by
    rw [wordLength, List.take_add]
    exact (solid_take_nameLength _).append (solid_take_nameMark _)
  rw [word_eq]
  split
  next isLabel =>
    have colon := (Bool.and_eq_true_iff.1 isLabel).1
    rw [List.take_add]
    refine name.append ?_
    cases behind : text.drop (wordLength text) with
    | nil => exact Text.solid_nil
    | cons c rest =>
        obtain rfl : c = ':' := by
          by_contra other
          simp [behind, isLabelColon, other] at colon
        exact Solid.cons (by decide) Text.solid_nil
  · exact name

theorem solid_operator {first : Char} {text : List Char} {lexeme : Lexeme}
    (found : operator first text = .ok lexeme) : Solid (first :: text.take lexeme.extra) := by
  have long : ∀ operator ∈ longOperators, 1 ≤ operator.length ∧
      ∀ c ∈ operator.toList, Text.isBlank c = false := by decide
  have short : ∀ c ∈ shortOperators, Text.isBlank c = false := by decide
  unfold operator at found
  split at found
  next operator isLongest =>
    cases found
    obtain ⟨nonempty, solid⟩ := long operator (List.mem_of_find?_eq_some isLongest)
    rw [← List.take_succ_cons, Nat.sub_add_cancel nonempty, take_of_find? isLongest]
    exact solid
  · split at found
    next isShort =>
      cases found
      exact Solid.cons (short first (List.contains_iff_mem.1 isShort)) Text.solid_nil
    · cases found

/-- A lexeme has no white space, or it is a string or a regular expression. -/
theorem solid_or_of_find {previous : Option Token} {first : Char} {text : List Char}
    {lexeme : Lexeme} (found : find previous first text = .ok lexeme) :
    Solid (first :: text.take lexeme.extra) ∨
      ((first = '"' ∨ first = '\'') ∧ string first text = .ok lexeme) ∨
      first = '/' ∧ regexp text = .ok lexeme := by
  rcases find_cases found with ⟨digit, isNumber⟩ | isString | ⟨sigil, isVariable⟩ |
    ⟨rfl, isSymbol⟩ | ⟨slash, -, isRegexp⟩ | ⟨isName, rfl⟩ | ⟨-, isOperator⟩
  · exact .inl ((solid_number isNumber).cons
      (Text.isBlank_of_isNameChar (isNameChar_of_isDigit digit)))
  · exact .inr (.inl isString)
  · refine .inl ((solid_sigilName isVariable).cons ?_)
    rcases sigil with rfl | rfl <;> decide
  · exact .inl ((solid_symbol? isSymbol).cons (by decide))
  · exact .inr (.inr ⟨slash, isRegexp⟩)
  · refine .inl ((solid_word previous first text).cons (Text.isBlank_of_isNameChar ?_))
    simp [isNameChar, isName]
  · exact .inl (solid_operator isOperator)

/-! ## The first character -/

/-- Whether a character starts a lexeme that is no operator. -/
def startsOperand (c : Char) : Bool :=
  isNameChar c || ['"', '\'', '@', '$', ':', '/'].contains c

theorem mem_of_operator {first : Char} {text : List Char} {lexeme : Lexeme}
    (found : operator first text = .ok lexeme) : first ∈ shortOperators := by
  have long : ∀ operator ∈ longOperators, 1 ≤ operator.length ∧
      ∀ c ∈ operator.toList.head?, c ∈ shortOperators := by decide
  unfold operator at found
  split at found
  next operator isLongest =>
    obtain ⟨nonempty, first⟩ := long operator (List.mem_of_find?_eq_some isLongest)
    rw [← take_of_find? isLongest, ← Nat.sub_add_cancel nonempty, List.take_succ_cons] at first
    exact first _ rfl
  · split at found
    next isShort => exact List.contains_iff_mem.1 isShort
    · cases found

/-- The first character of a lexeme is that of an operator or starts an operand. -/
theorem starts_of_find {previous : Option Token} {first : Char} {text : List Char}
    {lexeme : Lexeme} (found : find previous first text = .ok lexeme) :
    (lexeme.kind = .op ∧ first ∈ shortOperators ∧ isNameStart first = false) ∨
      startsOperand first = true := by
  rcases find_cases found with ⟨digit, -⟩ | ⟨quote, -⟩ | ⟨sigil, -⟩ | ⟨rfl, -⟩ | ⟨rfl, -⟩ |
    ⟨isName, -⟩ | ⟨noName, isOperator⟩
  · exact .inr (by simp [startsOperand, isNameChar, digit])
  · rcases quote with rfl | rfl <;> exact .inr rfl
  · rcases sigil with rfl | rfl <;> exact .inr rfl
  · exact .inr rfl
  · exact .inr rfl
  · exact .inr (by simp [startsOperand, isNameChar, isName])
  · exact .inl ⟨kind_of_operator isOperator, mem_of_operator isOperator, noName⟩

/-- No lexeme starts with a gap, a line break, a backslash or a comment. -/
theorem ne_of_find {previous : Option Token} {first : Char} {text : List Char} {lexeme : Lexeme}
    (found : find previous first text = .ok lexeme) :
    first ∉ ['\n', ' ', '\t', '\r', '\\', '#'] := by
  intro mem
  have others : ∀ c ∈ ['\n', ' ', '\t', '\r', '\\', '#'],
      c ∉ shortOperators ∧ startsOperand c = false := by decide
  obtain ⟨noOperator, noOperand⟩ := others first mem
  rcases starts_of_find found with ⟨-, isOperator, -⟩ | isOperand
  · exact noOperator isOperator
  · exact Bool.false_ne_true (noOperand.symm.trans isOperand)

/-! ## Words -/

/-- A keyword, constant or name is a word of the kind that its place gives it. -/
theorem wordKind_of_find {previous : Option Token} {first : Char} {body rest : List Char}
    {kind : TokenKind} (found : find previous first (body ++ rest) = .ok ⟨kind, body.length⟩)
    (isWord : kind = .keyword ∨ kind = .const ∨ kind = .ident) :
    isNameStart first = true ∧ kind = wordKind previous (first :: body) := by
  rcases find_cases found with ⟨-, isNumber⟩ | ⟨-, isString⟩ | ⟨-, isVariable⟩ | ⟨-, isSymbol⟩ |
    ⟨-, -, isRegexp⟩ | ⟨isName, found⟩ | ⟨-, isOperator⟩
  · rcases kind_of_number isNumber with rfl | rfl <;> simp at isWord
  · obtain ⟨-, -, rfl⟩ := string_eq_ok.1 isString
    simp at isWord
  · rcases kind_of_sigilName isVariable with rfl | rfl | rfl <;> simp at isWord
  · obtain rfl : kind = .symbol := kind_of_symbol? isSymbol
    simp at isWord
  · obtain ⟨-, rfl⟩ := regexp_eq_ok.1 isRegexp
    simp at isWord
  · refine ⟨isName, (wordLength_of_word found ?_).2⟩
    rintro rfl
    simp at isWord
  · obtain rfl : kind = .op := kind_of_operator isOperator
    simp at isWord

/-- The kind of a word is the same behind all tokens that are no call operators. -/
theorem wordKind_congr {previous other : Option Token} (noCall : afterCallOperator previous = false)
    (noCallToo : afterCallOperator other = false) (spelled : List Char) :
    wordKind previous spelled = wordKind other spelled := by
  rw [wordKind, wordKind, noCall, noCallToo]

/-- The name of a symbol starts like a name, or it is an operator. -/
theorem name_of_symbol? {previous : Option Token} {body rest : List Char} {kind : TokenKind}
    (found : symbol? previous (body ++ rest) = some ⟨kind, body.length⟩) :
    (body.head?.map isNameStart).getD false = true ∨
      ∃ operator ∈ symbolOperators, body = operator.toList := by
  unfold symbol? at found
  split at found
  · cases found
  next first text same =>
    split at found
    · cases found
    · split at found
      next start =>
        obtain ⟨-, length⟩ := Lexeme.mk.inj (Option.some.inj found)
        left
        cases body with
        | nil => simp [same, nameLength, isNameChar, start] at length
        | cons c body =>
            obtain ⟨rfl, -⟩ := List.cons.inj same
            exact start
      · split at found
        · cases found
        · obtain ⟨operator, isFirst, same⟩ := Option.map_eq_some_iff.1 found
          obtain ⟨-, length⟩ := Lexeme.mk.inj same
          exact .inr ⟨operator, List.mem_of_find?_eq_some isFirst,
            (eq_of_find?_of_length isFirst length).symm⟩

/-! ## Strings and regular expressions -/

/-- What is taken behind some characters ends as it does by itself, if anything is taken. -/
theorem getLast?_take_cons {c last : Char} {text : List Char} {length : Nat}
    (ends : (text.take length).getLast? = some last) :
    ((c :: text).take (length + 1)).getLast? = some last := by
  rw [List.take_succ_cons, List.getLast?_cons, ends]
  rfl

/-- A string ends with its quote. -/
theorem getLast?_of_stringLength? {quote : Char} {depth length : Nat} {text : List Char}
    (found : stringLength? quote depth text = some length) :
    (text.take length).getLast? = some quote := by
  fun_induction stringLength? quote depth text generalizing length with
  | case1 | case2 => cases found
  | case7 depth c rest _ _ _ _ closes =>
      cases found
      simp [closes.2]
  | case3 depth c rest ih | case4 depth rest isQuote ih =>
      obtain ⟨inner, isInner, rfl⟩ := Option.map_eq_some_iff.1 found
      exact getLast?_take_cons (getLast?_take_cons (ih isInner))
  | case5 | case6 | case8 =>
      rename_i ih
      obtain ⟨inner, isInner, rfl⟩ := Option.map_eq_some_iff.1 found
      exact getLast?_take_cons (ih isInner)

/-- The lines inside a regular expression end with backslashes. -/
theorem isTrimmed_of_regexpLength? {length : Nat} {text : List Char}
    (found : regexpLength? text = some length) :
    Text.isTrimmed (text.take length) = true ∧
      ∃ c rest, text.take length = c :: rest ∧ c ≠ '\n' := by
  fun_induction regexpLength? text generalizing length with
  | case1 | case2 | case5 => cases found
  | case3 c rest ih =>
      obtain ⟨inner, isInner, rfl⟩ := Option.map_eq_some_iff.1 found
      obtain ⟨trimmed, next, more, taken, noBreak⟩ := ih isInner
      refine ⟨?_, '\\', c :: rest.take inner, rfl, by decide⟩
      have solid : Text.isBlank '\\' = false := by decide
      rw [List.take_succ_cons, List.take_succ_cons, Text.isTrimmed, Text.isTrimmed, trimmed, taken]
      simp [solid, noBreak]
  | case4 rest =>
      cases found
      have flags : Text.Solid (rest.take (rest.takeWhile isRegexpFlag).length) := by
        refine Text.solid_take_takeWhile (fun c isFlag => ?_) rest
        simp only [isRegexpFlag, Bool.or_eq_true, beq_iff_eq] at isFlag
        rcases isFlag with ((rfl | rfl) | rfl) | rfl <;> decide
      rw [Nat.add_comm, List.take_succ_cons]
      exact ⟨Text.isTrimmed_of_solid (flags.cons (by decide)), '/', _, rfl, by decide⟩
  | case6 c rest _ _ _ noBreak ih =>
      obtain ⟨inner, isInner, rfl⟩ := Option.map_eq_some_iff.1 found
      obtain ⟨trimmed, next, more, taken, noNext⟩ := ih isInner
      refine ⟨?_, c, rest.take inner, rfl, noBreak⟩
      rw [List.take_succ_cons, Text.isTrimmed, trimmed, taken]
      simp [noNext]

/-- No lexeme leaves white space at the end of a line. -/
theorem isTrimmed_of_find {previous : Option Token} {first : Char} {text : List Char}
    {lexeme : Lexeme} (found : find previous first text = .ok lexeme) :
    Text.isTrimmed (first :: text.take lexeme.extra) = true := by
  obtain ⟨kind, extra⟩ := lexeme
  rcases solid_or_of_find found with solid | ⟨quote, isString⟩ | ⟨rfl, isRegexp⟩
  · exact Text.isTrimmed_of_solid solid
  · obtain ⟨closes, single, -⟩ := string_eq_ok.1 isString
    refine Text.isTrimmed_of_last ?_ ?_
    · intro mem
      rcases List.mem_cons.1 mem with rfl | inner
      · rcases quote with quote | quote <;> cases quote
      · rw [List.contains_iff_mem.2 inner] at single
        cases single
    · intro c last
      rw [List.getLast?_cons, getLast?_of_stringLength? closes] at last
      obtain rfl : first = c := by simpa using last
      rcases quote with rfl | rfl <;> decide
  · obtain ⟨trimmed, c, rest, taken, noBreak⟩ :=
      isTrimmed_of_regexpLength? (regexp_eq_ok.1 isRegexp).1
    dsimp only
    rw [Text.isTrimmed, trimmed, taken]
    simp [noBreak]

end Lexeme

/-! ## Scanning a lexeme -/

/-- The scanner takes a lexeme where the program does not end. -/
theorem Tokens.scan_of_find {previous : Option Token} {first : Char} {text : List Char}
    {lexeme : Lexeme} (found : Lexeme.find previous first text = .ok lexeme) {pos : Pos}
    (noMark : ¬ (pos.col = 1 ∧ isEndMark (first :: text) = true)) (spaced : Bool) :
    scan 0 previous pos spaced (first :: text) =
      (scan 0 (some ⟨lexeme.kind, lexeme.text first text, pos, spaced⟩)
        (pos.right (lexeme.extra + 1)) false (text.drop lexeme.extra)).map
          (cons ⟨lexeme.kind, lexeme.text first text, pos, spaced⟩) := by
  have others := Lexeme.ne_of_find found
  simp only [List.mem_cons, List.not_mem_nil, or_false, not_or] at others
  obtain ⟨noBreak, noBlank, noTab, noReturn, noEscape, noComment⟩ := others
  have noGap : isGap first = false := by simp [isGap, noBlank, noTab, noReturn]
  rw [scan]
  simp only [noBreak, noGap, noEscape, noComment, noMark, found, Bool.false_eq_true, if_false,
    false_and]
  rw [scan_eq_drop]

end RubyFormat
