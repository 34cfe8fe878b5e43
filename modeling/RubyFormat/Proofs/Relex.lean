import Mathlib.Data.List.Induction
import RubyFormat.Token.Lexer

/-!
# A lexeme in another place

What is one lexeme in some text is the same lexeme before any text that cannot continue it.  Each
lemma takes a lexeme that was found before `rest` and finds it before `other`; what it asks of the
new place is only how the text behind the lexeme starts, and for some lexemes the token before.
-/

namespace RubyFormat

namespace Lexeme

variable {body rest other : List Char}

/-- A run of characters that ends within a text is the same before another text. -/
theorem length_takeWhile_append {p : Char → Bool} {count : Nat}
    (found : ((body ++ rest).takeWhile p).length = count) (within : count ≤ body.length)
    (stops : count = body.length → ∀ c ∈ other.head?, p c = false) :
    ((body ++ other).takeWhile p).length = count := by
  induction body generalizing count with
  | nil =>
    obtain rfl : count = 0 := by simpa using within
    cases other with
    | nil => rfl
    | cons c other => simp [stops rfl c rfl]
  | cons c body ih =>
    cases holds : p c with
    | false => simpa [List.takeWhile_cons, holds] using found
    | true =>
      obtain rfl : ((body ++ rest).takeWhile p).length + 1 = count := by
        simpa [List.takeWhile_cons, holds] using found
      simp only [List.length_cons, Nat.add_le_add_iff_right] at within
      simp [holds, ih rfl within fun all => stops (by simp [all])]

/-- The text behind a lexeme does not go on with a letter, a digit or an underscore. -/
def NoName (other : List Char) : Prop :=
  ∀ c ∈ other.head?, isNameChar c = false

theorem NoName.noDigit (noName : NoName other) {c : Char} (head : c ∈ other.head?) :
    (c.isDigit || c == '_') = false := by
  have none := noName c head
  simp only [isNameChar, isNameStart, Bool.or_eq_false_iff] at none ⊢
  exact ⟨none.2, none.1.2⟩

/-! ## Numbers -/

theorem digitsLength_append {count : Nat} (found : digitsLength (body ++ rest) = count)
    (within : count ≤ body.length) (noName : NoName other) :
    digitsLength (body ++ other) = count :=
  length_takeWhile_append found within fun _ _ => noName.noDigit

theorem fractionLength_of_ne {first : Char} (noPoint : first ≠ '.') (text : List Char) :
    fractionLength (first :: text) = 0 := by
  unfold fractionLength
  split
  next same => exact absurd (List.cons.inj same).1 noPoint
  · rfl

theorem fractionLength_append {count : Nat} (found : fractionLength (body ++ rest) = count)
    (within : count ≤ body.length) (noName : NoName other)
    (noFraction : fractionLength other = 0) : fractionLength (body ++ other) = count := by
  cases body with
  | nil =>
    obtain rfl : count = 0 := by simpa using within
    exact noFraction
  | cons first body =>
    by_cases point : first = '.'
    · subst point
      cases body with
      | nil =>
        have atMost : count ≤ 1 := by simpa using within
        have none : count = 0 := by
          cases rest with
          | nil => exact found.symm
          | cons digit rest =>
            simp only [List.singleton_append, fractionLength] at found
            split at found
            next isDigit =>
              have one : digitsLength (digit :: rest) ≥ 1 := by simp [digitsLength, isDigit]
              omega
            · exact found.symm
        subst none
        cases other with
        | nil => rfl
        | cons digit other =>
          have noDigit : digit.isDigit = false :=
            (Bool.or_eq_false_iff.1 (noName.noDigit rfl)).1
          simp [fractionLength, noDigit]
      | cons digit body =>
        simp only [List.cons_append, fractionLength] at found ⊢
        split at found
        next isDigit =>
          have inner : digitsLength (digit :: body ++ rest) = count - 1 := by
            simp only [List.cons_append]
            omega
          have same := digitsLength_append inner (by simp at within ⊢; omega) noName
          simp only [List.cons_append] at same inner
          rw [if_pos isDigit]
          omega
        next noDigit => rw [if_neg noDigit, found]
    · rw [List.cons_append, fractionLength_of_ne point] at found ⊢
      exact found

theorem exponentLength?_of_not {mark : Char} (noMark : ¬ (mark = 'e' ∨ mark = 'E'))
    (text : List Char) : exponentLength? (mark :: text) = some 0 := by
  simp [exponentLength?, noMark]

/-- An exponent takes its mark, a sign that may be missing, and at least one digit. -/
theorem exponentLength?_eq_some {mark : Char} (isMark : mark = 'e' ∨ mark = 'E')
    {text : List Char} {length : Nat} :
    exponentLength? (mark :: text) = some length ↔
      length = 1 + signLength text + ((text.drop (signLength text)).takeWhile Char.isDigit).length ∧
        length ≠ 1 + signLength text := by
  rw [exponentLength?, if_pos isMark, Option.ite_none_left_eq_some, Option.some.injEq]
  omega

theorem exponentLength?_append (found : exponentLength? (body ++ rest) = some body.length)
    (noName : NoName other) : exponentLength? (body ++ other) = some body.length := by
  cases body with
  | nil =>
    cases other with
    | nil => rfl
    | cons mark other =>
      refine exponentLength?_of_not ?_ other
      rintro (rfl | rfl) <;> exact absurd (noName _ rfl) (by decide)
  | cons mark body =>
    rw [List.cons_append] at found ⊢
    by_cases isMark : mark = 'e' ∨ mark = 'E'
    · rw [exponentLength?_eq_some isMark] at found ⊢
      obtain ⟨length, some⟩ := found
      cases body with
      | nil => simp at length some; omega
      | cons first body =>
        have sign (text : List Char) : signLength (first :: body ++ text) = signLength [first] := rfl
        have enough : signLength [first] ≤ (first :: body).length := by
          simp only [signLength, List.length_cons]
          split <;> omega
        rw [sign, List.drop_append_of_le_length enough] at length ⊢
        rw [sign] at some
        generalize digits : (((first :: body).drop (signLength [first]) ++ rest).takeWhile
          Char.isDigit).length = count at length
        have same := length_takeWhile_append digits
          (by simp only [List.length_drop, List.length_cons] at *; omega)
          fun _ c head => (Bool.or_eq_false_iff.1 (noName.noDigit head)).1
        exact ⟨by rw [same, length], some⟩
    · rw [exponentLength?_of_not isMark] at found
      exact absurd (Option.some.inj found) (by simp)

/-- A number takes its digits, its fraction and its exponent. -/
theorem number_eq_ok {text : List Char} {kind : TokenKind} {length : Nat} :
    number text = .ok ⟨kind, length⟩ ↔
      ∃ fraction exponent,
        fractionLength (text.drop (digitsLength text)) = fraction ∧
        exponentLength? (text.drop (digitsLength text + fraction)) = some exponent ∧
        (if fraction + exponent = 0 then TokenKind.int else .float) = kind ∧
        digitsLength text + fraction + exponent = length := by
  constructor
  · intro found
    simp only [number] at found
    split at found
    · cases found
    next exponent isExponent =>
      cases found
      exact ⟨_, exponent, rfl, isExponent, rfl, rfl⟩
  · rintro ⟨_, exponent, rfl, isExponent, rfl, rfl⟩
    simp only [number, isExponent]

/-- A number before text that does not go on with a name or a fraction. -/
theorem number_append {kind : TokenKind} (found : number (body ++ rest) = .ok ⟨kind, body.length⟩)
    (noName : NoName other) (noFraction : fractionLength other = 0) :
    number (body ++ other) = .ok ⟨kind, body.length⟩ := by
  rw [number_eq_ok] at found ⊢
  obtain ⟨fraction, exponent, isFraction, isExponent, isKind, length⟩ := found
  generalize wholes : digitsLength (body ++ rest) = whole at *
  rw [List.drop_append_of_le_length (by omega)] at isFraction isExponent
  have last : exponent = (body.drop (whole + fraction)).length := by
    rw [List.length_drop]
    omega
  subst last
  refine ⟨fraction, _, ?_, ?_, isKind, ?_⟩
  all_goals rw [digitsLength_append wholes (by omega) noName]
  · rw [List.drop_append_of_le_length (by omega)]
    exact fractionLength_append isFraction (by rw [List.length_drop]; omega) noName noFraction
  · rw [List.drop_append_of_le_length (by omega)]
    exact exponentLength?_append isExponent noName
  · exact length

/-! ## Strings, regular expressions and variables -/

theorem stringLength?_pos {quote : Char} {depth : Nat} {text : List Char} {length : Nat}
    (found : stringLength? quote depth text = some length) : 0 < length := by
  fun_induction stringLength? quote depth text generalizing length with
  | case1 | case2 => cases found
  | case7 =>
    cases found
    exact Nat.one_pos
  | _ =>
    obtain ⟨inner, -, rfl⟩ := Option.map_eq_some_iff.1 found
    exact Nat.succ_pos _

/-- A character of a string that neither escapes the next one nor opens an insertion. -/
theorem stringLength?_cons {quote c : Char} {depth : Nat} {text : List Char} (noEscape : c ≠ '\\')
    (noInsertion : ¬ (c = '#' ∧ text.head? = some '\x7b')) :
    stringLength? quote depth (c :: text) =
      if depth > 0 ∧ c = '\x7d' then (stringLength? quote (depth - 1) text).map (· + 1)
      else if depth = 0 ∧ c = quote then some 1
      else (stringLength? quote depth text).map (· + 1) := by
  rw [stringLength?.eq_def]
  split
  next same => cases same
  next same => exact absurd (List.cons.inj same).1 noEscape
  next same => exact absurd (List.cons.inj same).1 noEscape
  next same =>
    obtain ⟨rfl, rfl⟩ := List.cons.inj same
    exact absurd ⟨rfl, rfl⟩ noInsertion
  next same =>
    obtain ⟨rfl, rfl⟩ := List.cons.inj same
    rfl

/-- An escape takes the next character with it. -/
theorem stringLength?_escape {quote c : Char} {depth : Nat} {text : List Char} :
    stringLength? quote depth ('\\' :: c :: text) = (stringLength? quote depth text).map (· + 2) :=
  rfl

theorem stringLength?_insertion {quote : Char} {depth : Nat} {text : List Char} :
    stringLength? quote depth ('#' :: '\x7b' :: text) =
      if quote = '"' then (stringLength? quote (depth + 1) text).map (· + 2)
      else (stringLength? quote depth ('\x7b' :: text)).map (· + 1) :=
  rfl

/-- What goes on behind some characters is at least one more character long. -/
theorem map_ne_some {found : Option Nat} (pos : ∀ length, found = some length → 0 < length)
    {count : Nat} : found.map (· + count) ≠ some count := by
  cases found with
  | none => simp
  | some length =>
    have := pos length rfl
    simp
    omega

/-- A string has closed with its last character, whatever follows. -/
theorem stringLength?_append {quote : Char} {depth : Nat} (noEscape : quote ≠ '\\')
    (noInsertion : quote ≠ '#')
    (found : stringLength? quote depth (body ++ rest) = some body.length) :
    stringLength? quote depth (body ++ other) = some body.length := by
  induction body using List.twoStepInduction generalizing depth with
  | nil => exact absurd (stringLength?_pos found) (by simp)
  | singleton c =>
    -- one character is a whole string only if it is the closing quote
    have closes : depth = 0 ∧ c = quote := by
      rw [List.singleton_append] at found
      by_cases escapes : c = '\\'
      · subst escapes
        cases rest with
        | nil => cases found
        | cons next rest =>
          rw [stringLength?_escape] at found
          obtain ⟨length, -, two⟩ := Option.map_eq_some_iff.1 found
          simp at two
      · by_cases opens : c = '#' ∧ rest.head? = some '\x7b'
        · obtain ⟨rfl, head⟩ := opens
          obtain ⟨rest, rfl⟩ : ∃ more, rest = '\x7b' :: more := by
            cases rest with
            | nil => cases head
            | cons next rest => exact ⟨rest, by simpa using head⟩
          rw [stringLength?_insertion] at found
          split at found
          · obtain ⟨length, -, two⟩ := Option.map_eq_some_iff.1 found
            simp at two
          · exact absurd found (map_ne_some fun _ => stringLength?_pos)
        · rw [stringLength?_cons escapes opens] at found
          split at found
          · exact absurd found (map_ne_some fun _ => stringLength?_pos)
          · split at found
            next closes => exact closes
            · exact absurd found (map_ne_some fun _ => stringLength?_pos)
    obtain ⟨rfl, rfl⟩ := closes
    rw [List.singleton_append, stringLength?_cons noEscape (fun opens => noInsertion opens.1)]
    simp
  | cons_cons c next body ih₂ ih₁ =>
    simp only [List.cons_append, List.length_cons] at found ⊢
    by_cases escapes : c = '\\'
    · subst escapes
      rw [stringLength?_escape] at found ⊢
      obtain ⟨length, inner, two⟩ := Option.map_eq_some_iff.1 found
      rw [ih₂ (by rw [inner]; congr 1; omega)]
      rfl
    · by_cases opens : c = '#' ∧ next = '\x7b'
      · obtain ⟨rfl, rfl⟩ := opens
        rw [stringLength?_insertion] at found ⊢
        split at found
        next double =>
          obtain ⟨length, inner, two⟩ := Option.map_eq_some_iff.1 found
          rw [if_pos double, ih₂ (by rw [inner]; congr 1; omega)]
          rfl
        next single =>
          obtain ⟨length, inner, one⟩ := Option.map_eq_some_iff.1 found
          have tail := ih₁ '\x7b' (by rw [List.cons_append, inner, List.length_cons]; congr 1; omega)
          rw [List.cons_append] at tail
          rw [if_neg single, tail]
          rfl
      · have plain (text : List Char) : ¬ (c = '#' ∧ (next :: text).head? = some '\x7b') := by
          simpa using opens
        rw [stringLength?_cons escapes (plain _)] at found ⊢
        have tail {depth : Nat}
            (found : (stringLength? quote depth (next :: (body ++ rest))).map (· + 1) =
              some (body.length + 1 + 1)) :
            (stringLength? quote depth (next :: (body ++ other))).map (· + 1) =
              some (body.length + 1 + 1) := by
          obtain ⟨length, inner, one⟩ := Option.map_eq_some_iff.1 found
          have same := ih₁ next (by rw [List.cons_append, inner, List.length_cons]; congr 1; omega)
          rw [List.cons_append] at same
          rw [same]
          rfl
        split at found
        next closes =>
          rw [if_pos closes]
          exact tail found
        next notInside =>
          rw [if_neg notInside]
          split at found
          · simp at found
          next notQuote =>
            rw [if_neg notQuote]
            exact tail found

theorem regexpLength?_pos {text : List Char} {length : Nat}
    (found : regexpLength? text = some length) : 0 < length := by
  fun_induction regexpLength? text generalizing length with
  | case1 | case2 | case5 => cases found
  | case4 =>
    cases found
    omega
  | _ =>
    obtain ⟨inner, -, rfl⟩ := Option.map_eq_some_iff.1 found
    exact Nat.succ_pos _

theorem regexpLength?_escape {c : Char} {text : List Char} :
    regexpLength? ('\\' :: c :: text) = (regexpLength? text).map (· + 2) :=
  rfl

theorem regexpLength?_cons {c : Char} {text : List Char} (noEscape : c ≠ '\\') :
    regexpLength? (c :: text) =
      if c = '/' then some (1 + (text.takeWhile isRegexpFlag).length)
      else if c = '\n' then none
      else (regexpLength? text).map (· + 1) := by
  rw [regexpLength?.eq_def]
  split
  next same => cases same
  next same => exact absurd (List.cons.inj same).1 noEscape
  next same => exact absurd (List.cons.inj same).1 noEscape
  next same =>
    obtain ⟨rfl, rfl⟩ := List.cons.inj same
    rfl

theorem isRegexpFlag_eq_false {c : Char} (noName : isNameChar c = false) :
    isRegexpFlag c = false := by
  by_contra flag
  simp only [isRegexpFlag, Bool.not_eq_false, Bool.or_eq_true, beq_iff_eq] at flag
  obtain ((rfl | rfl) | rfl) | rfl := flag <;> exact absurd noName (by decide)

/-- A regular expression has closed with its last flag. -/
theorem regexpLength?_append (found : regexpLength? (body ++ rest) = some body.length)
    (noName : NoName other) : regexpLength? (body ++ other) = some body.length := by
  have closed {body : List Char}
      (found : 1 + ((body ++ rest).takeWhile isRegexpFlag).length = body.length + 1) :
      1 + ((body ++ other).takeWhile isRegexpFlag).length = body.length + 1 := by
    have all : ((body ++ rest).takeWhile isRegexpFlag).length = body.length := by omega
    have same := length_takeWhile_append all (Nat.le_refl _)
      fun _ c head => isRegexpFlag_eq_false (noName c head)
    omega
  induction body using List.twoStepInduction with
  | nil => exact absurd (regexpLength?_pos found) (by simp)
  | singleton c =>
    rw [List.singleton_append] at found ⊢
    by_cases escapes : c = '\\'
    · subst escapes
      cases rest with
      | nil => cases found
      | cons next rest =>
        rw [regexpLength?_escape] at found
        obtain ⟨length, -, two⟩ := Option.map_eq_some_iff.1 found
        simp at two
    · rw [regexpLength?_cons escapes] at found ⊢
      split at found
      next slash =>
        rw [if_pos slash]
        exact congrArg some (@closed [] (Option.some.inj found))
      next =>
        split at found
        · cases found
        · exact absurd found (map_ne_some fun _ => regexpLength?_pos)
  | cons_cons c next body ih₂ ih₁ =>
    simp only [List.cons_append, List.length_cons] at found ⊢
    by_cases escapes : c = '\\'
    · subst escapes
      rw [regexpLength?_escape] at found ⊢
      obtain ⟨length, inner, two⟩ := Option.map_eq_some_iff.1 found
      rw [ih₂ (by rw [inner]; congr 1; omega)]
      rfl
    · rw [regexpLength?_cons escapes] at found ⊢
      split at found
      next slash =>
        rw [if_pos slash]
        exact congrArg some (@closed (next :: body) (Option.some.inj found))
      next noSlash =>
        rw [if_neg noSlash]
        split at found
        · cases found
        next inLine =>
          obtain ⟨length, inner, one⟩ := Option.map_eq_some_iff.1 found
          have same := ih₁ next (by rw [List.cons_append, inner, List.length_cons]; congr 1; omega)
          rw [List.cons_append] at same
          rw [if_neg inLine, same]
          rfl

theorem nameLength_append {count : Nat} (found : nameLength (body ++ rest) = count)
    (within : count ≤ body.length) (noName : NoName other) :
    nameLength (body ++ other) = count :=
  length_takeWhile_append found within fun _ c head => noName c head

/-- A variable is one sigil or two and a name. -/
theorem sigilName_eq_ok {sigil : Char} {text : List Char} {kind : TokenKind} {extra : Nat} :
    sigilName sigil text = .ok ⟨kind, extra⟩ ↔
      if sigil = '@' ∧ text.head? = some '@' then
        kind = .cvar ∧ ((text.drop 1).head?.map isNameStart).getD false = true ∧
          extra = 1 + nameLength (text.drop 1)
      else
        kind = (if sigil = '@' then .ivar else .gvar) ∧
          (text.head?.map isNameStart).getD false = true ∧ extra = nameLength text := by
  unfold sigilName
  by_cases isClass : sigil = '@' ∧ text.head? = some '@'
  · simp only [isClass, and_self, if_true]
    generalize ((text.drop 1).head?.map isNameStart).getD false = start
    cases start <;> simp [eq_comm (a := kind), eq_comm (a := extra)]
  · simp only [isClass, if_false, List.drop_zero, Nat.zero_add]
    generalize (text.head?.map isNameStart).getD false = start
    cases start <;> simp [eq_comm (a := kind), eq_comm (a := extra)]

theorem sigilName_append {sigil : Char} {kind : TokenKind}
    (found : sigilName sigil (body ++ rest) = .ok ⟨kind, body.length⟩) (noName : NoName other) :
    sigilName sigil (body ++ other) = .ok ⟨kind, body.length⟩ := by
  have starts {text : List Char} (start : (text.head?.map isNameStart).getD false = true) :
      0 < nameLength text := by
    cases text with
    | nil => cases start
    | cons c text => simp_all [nameLength, isNameChar]
  rw [sigilName_eq_ok] at found ⊢
  cases body with
  | nil =>
    split at found
    · exact absurd found.2.2 (by simp; omega)
    · exact absurd found.2.2 (Nat.ne_of_lt (starts found.2.1))
  | cons c body =>
    simp only [List.cons_append, List.head?_cons, List.drop_succ_cons, List.drop_zero,
      List.length_cons] at found ⊢
    split at found
    next isClass =>
      rw [if_pos isClass]
      obtain ⟨kind, start, length⟩ := found
      have all : nameLength (body ++ rest) = body.length := by omega
      refine ⟨kind, ?_, by rw [nameLength_append all (Nat.le_refl _) noName]; omega⟩
      cases body with
      | nil => exact absurd (starts start) (by rw [all]; exact Nat.lt_irrefl 0)
      | cons c body => exact start
    next noClass =>
      rw [if_neg noClass]
      obtain ⟨kind, start, length⟩ := found
      refine ⟨kind, start, ?_⟩
      rw [← List.cons_append] at length ⊢
      exact (nameLength_append length.symm (Nat.le_refl _) noName).symm

/-! ## Words and symbols -/

/-- The text behind a name does not go on with a mark or with what can follow one. -/
def NoMark (other : List Char) : Prop :=
  ∀ c ∈ other.head?, c ∉ ['?', '!', '=', '>', '~']

theorem nameMark_append (found : nameMark (body ++ rest) = body.length) (noMark : NoMark other) :
    nameMark (body ++ other) = body.length := by
  match body with
  | [] =>
    cases other with
    | nil => rfl
    | cons c other =>
      have := noMark c rfl
      simp_all [nameMark]
  | [mark] =>
    have isMark : mark = '?' ∨ mark = '!' := by
      simp only [List.singleton_append, nameMark, List.length_singleton] at found
      split at found
      next marked => exact marked.1
      · cases found
    cases other with
    | nil => simp [nameMark, isMark]
    | cons c other =>
      have := noMark c rfl
      simp_all [nameMark]
  | _ :: _ :: body =>
    simp only [List.cons_append, nameMark, List.length_cons] at found
    split at found <;> omega

theorem symbolMark_append (found : symbolMark (body ++ rest) = body.length)
    (noMark : NoMark other) : symbolMark (body ++ other) = body.length := by
  match body with
  | [] =>
    cases other with
    | nil => rfl
    | cons c other =>
      have := noMark c rfl
      simp_all [symbolMark]
  | [mark] =>
    have isMark : mark = '?' ∨ mark = '!' ∨ mark = '=' := by
      simp only [List.singleton_append, symbolMark, List.length_singleton] at found
      split at found
      next marked => exact marked.1
      · cases found
    cases other with
    | nil => simp [symbolMark, isMark]
    | cons c other =>
      have := noMark c rfl
      simp_all [symbolMark]
  | _ :: _ :: body =>
    simp only [List.cons_append, symbolMark, List.length_cons] at found
    split at found <;> omega

/-- A name with the mark that ends it is the same where neither can go on. -/
theorem markedName_append {mark : List Char → Nat}
    (same : ∀ {body : List Char}, mark (body ++ rest) = body.length →
      mark (body ++ other) = body.length)
    (noName : NoName other)
    (found : nameLength (body ++ rest) + mark ((body ++ rest).drop (nameLength (body ++ rest))) =
      body.length) :
    nameLength (body ++ other) + mark ((body ++ other).drop (nameLength (body ++ other))) =
      body.length := by
  obtain ⟨name, named⟩ : ∃ name, nameLength (body ++ rest) = name := ⟨_, rfl⟩
  rw [named] at found
  have within : name ≤ body.length := by omega
  rw [nameLength_append named within noName, List.drop_append_of_le_length within]
  rw [List.drop_append_of_le_length within] at found
  rw [same (by rw [List.length_drop]; omega), List.length_drop]
  omega

/-- The length of a word behind its first character. -/
def wordLength (text : List Char) : Nat :=
  nameLength text + nameMark (text.drop (nameLength text))

theorem wordLength_append (found : wordLength (body ++ rest) = body.length)
    (noName : NoName other) (noMark : NoMark other) : wordLength (body ++ other) = body.length :=
  markedName_append (fun marked => nameMark_append marked noMark) noName found

/-- The kind of a word that is no label. -/
def wordKind (previous : Option Token) (spelled : List Char) : TokenKind :=
  if keywords.contains (String.ofList spelled) && !afterCallOperator previous then .keyword
  else if (spelled.head?.map Char.isUpper).getD false then .const
  else .ident

theorem word_eq (previous : Option Token) (first : Char) (text : List Char) :
    word previous first text =
      if isLabelColon (text.drop (wordLength text)) && !afterCallOperator previous then
        ⟨.label, wordLength text + 1⟩
      else ⟨wordKind previous (first :: text.take (wordLength text)), wordLength text⟩ := by
  simp only [word, ← wordLength.eq_1, wordKind, List.head?_cons, Option.map_some, Option.getD_some]
  cases isLabelColon (text.drop (wordLength text)) && !afterCallOperator previous
  · cases keywords.contains (String.ofList (first :: text.take (wordLength text)))
      && !afterCallOperator previous
    · by_cases upper : first.isUpper = true <;> simp [upper]
    · rfl
  · rfl

/-- A word of another kind than a label, before a text that does not continue it. -/
theorem word_of_wordLength {previous : Option Token} {first : Char}
    (length : wordLength (body ++ other) = body.length) (noLabel : isLabelColon other = false) :
    word previous first (body ++ other) = ⟨wordKind previous (first :: body), body.length⟩ := by
  rw [word_eq, length, List.drop_left, List.take_left, noLabel]
  rfl

theorem wordLength_of_word {previous : Option Token} {first : Char} {kind : TokenKind}
    (found : word previous first (body ++ rest) = ⟨kind, body.length⟩) (noLabel : kind ≠ .label) :
    wordLength (body ++ rest) = body.length ∧ kind = wordKind previous (first :: body) := by
  rw [word_eq] at found
  split at found
  · exact absurd (Lexeme.mk.inj found).1.symm noLabel
  · obtain ⟨rfl, length⟩ := Lexeme.mk.inj found
    rw [length, List.take_left]
    exact ⟨rfl, rfl⟩

theorem wordKind_ne_label (previous : Option Token) (spelled : List Char) :
    wordKind previous spelled ≠ .label := by
  unfold wordKind
  split
  · decide
  · split <;> decide

/-- A label is the same before a text that does not start with a second colon. -/
theorem label_append {previous previous' : Option Token} {first : Char}
    (found : word previous first (body ++ rest) = ⟨.label, body.length⟩)
    (noCall : afterCallOperator previous' = false) (noColon : other.head? ≠ some ':') :
    word previous' first (body ++ other) = ⟨.label, body.length⟩ := by
  rw [word_eq] at found
  split at found
  next colon =>
    obtain ⟨-, length⟩ := Lexeme.mk.inj found
    obtain ⟨name, last, rfl⟩ : ∃ name last, body = name ++ [last] := by
      rcases body.eq_nil_or_concat with rfl | ⟨name, last, same⟩
      · cases length
      · exact ⟨name, last, by simpa using same⟩
    simp only [List.append_assoc, List.singleton_append, List.length_append,
      List.length_singleton, Nat.add_right_cancel_iff] at *
    rw [length, List.drop_left] at colon
    obtain rfl : last = ':' := by
      by_contra other
      simp [isLabelColon, other] at colon
    have same : wordLength (name ++ ':' :: other) = name.length :=
      wordLength_append length (by rintro c ⟨⟩; decide) (by rintro c ⟨⟩; decide)
    rw [word_eq, same, List.drop_left, noCall]
    simp [isLabelColon, noColon]
  · exact absurd (Lexeme.mk.inj found).1 (wordKind_ne_label _ _)

/-! ## Operators -/

/-- Whether a text and the character behind it start one of the operators. -/
def grows (operators : List String) (text : List Char) (c : Char) : Bool :=
  operators.any fun operator => (text ++ [c]).isPrefixOf operator.toList

theorem prefix_or_grows {text part : List Char} (starts : part <+: text ++ other) :
    part <+: text ∨ ∃ c ∈ other.head?, text ++ [c] <+: part := by
  obtain within | ⟨more, rfl⟩ := List.prefix_or_prefix_of_prefix starts (List.prefix_append text other)
  · exact .inl within
  · rw [List.prefix_append_right_inj] at starts
    cases more with
    | nil => exact .inl (by simp)
    | cons c more =>
      obtain ⟨last, rfl⟩ := starts
      refine .inr ⟨c, rfl, ?_⟩
      rw [List.prefix_append_right_inj]
      exact ⟨more, rfl⟩

theorem isPrefixOf_append {operators : List String} {text : List Char} {operator : String}
    (known : operator ∈ operators) (noGrow : ∀ c ∈ other.head?, grows operators text c = false)
    (starts : operator.toList.isPrefixOf (text ++ other) = true) :
    operator.toList.isPrefixOf (text ++ rest) = true := by
  rw [List.isPrefixOf_iff_prefix] at starts ⊢
  obtain within | ⟨c, head, more⟩ := prefix_or_grows starts
  · exact within.trans (List.prefix_append text rest)
  · have grown : grows operators text c = true :=
      List.any_eq_true.2 ⟨operator, known, List.isPrefixOf_iff_prefix.2 more⟩
    rw [noGrow c head] at grown
    cases grown

theorem find?_append {operators : List String} {text : List Char} {operator : String}
    (found : operators.find? (fun operator => operator.toList.isPrefixOf (text ++ rest)) =
      some operator)
    (whole : operator.toList = text)
    (noGrow : ∀ c ∈ other.head?, grows operators text c = false) :
    operators.find? (fun operator => operator.toList.isPrefixOf (text ++ other)) =
      some operator := by
  rw [List.find?_eq_some_iff_append] at found ⊢
  obtain ⟨-, before, after, rfl, others⟩ := found
  refine ⟨?_, before, after, rfl, fun longer isBefore => ?_⟩
  · rw [whole, List.isPrefixOf_iff_prefix]
    exact List.prefix_append text other
  · by_contra starts
    rw [Bool.not_eq_true, Bool.not_eq_false'] at starts
    have known : longer ∈ before ++ operator :: after := List.mem_append_left _ isBefore
    have ahead := others longer isBefore
    rw [isPrefixOf_append known noGrow starts] at ahead
    cases ahead

theorem find?_append_none {operators : List String} {text : List Char}
    (found : operators.find? (fun operator => operator.toList.isPrefixOf (text ++ rest)) = none)
    (noGrow : ∀ c ∈ other.head?, grows operators text c = false) :
    operators.find? (fun operator => operator.toList.isPrefixOf (text ++ other)) = none := by
  rw [List.find?_eq_none] at found ⊢
  exact fun operator known starts => found operator known (isPrefixOf_append known noGrow starts)

theorem eq_of_find?_of_length {operators : List String} {text : List Char} {operator : String}
    (found : operators.find? (fun operator => operator.toList.isPrefixOf (text ++ rest)) =
      some operator)
    (length : operator.length = text.length) : operator.toList = text := by
  have starts : operator.toList.isPrefixOf (text ++ rest) = true :=
    (List.find?_eq_some_iff_append.1 found).1
  rw [List.isPrefixOf_iff_prefix] at starts
  have same : operator.toList.length = text.length := by rw [String.length_toList, length]
  have within := List.prefix_of_prefix_length_le starts (List.prefix_append text rest)
    (Nat.le_of_eq same)
  exact within.eq_of_length same

theorem operator_append {first : Char} {kind : TokenKind}
    (found : operator first (body ++ rest) = .ok ⟨kind, body.length⟩)
    (noGrow : ∀ c ∈ other.head?, grows longOperators (first :: body) c = false) :
    operator first (body ++ other) = .ok ⟨kind, body.length⟩ := by
  have long : ∀ operator ∈ longOperators, 1 ≤ operator.length := by decide
  unfold operator at found ⊢
  rw [← List.cons_append] at found ⊢
  split at found
  next operator isLongest =>
    obtain ⟨rfl, length⟩ := Lexeme.mk.inj (Except.ok.inj found)
    have known := List.mem_of_find?_eq_some isLongest
    have whole := eq_of_find?_of_length isLongest
      (by have := long operator known; rw [List.length_cons]; omega)
    rw [find?_append isLongest whole noGrow]
    exact congrArg Except.ok (congrArg _ length)
  next noLong =>
    rw [find?_append_none noLong noGrow]
    exact found

/-- A long operator that starts with a colon is two colons. -/
theorem eq_colon_of_operator {kind : TokenKind}
    (found : operator ':' (body ++ rest) = .ok ⟨kind, body.length⟩) (more : body ≠ []) :
    body = [':'] := by
  have colons : ∀ operator ∈ longOperators, 1 ≤ operator.length ∧
      (operator.toList.head? = some ':' → operator.toList = [':', ':']) := by decide
  unfold operator at found
  rw [← List.cons_append] at found
  split at found
  next operator isLongest =>
    obtain ⟨long, colons⟩ := colons operator (List.mem_of_find?_eq_some isLongest)
    have whole := eq_of_find?_of_length isLongest
      (by have := (Lexeme.mk.inj (Except.ok.inj found)).2; rw [List.length_cons]; omega)
    rw [whole] at colons
    exact (List.cons.inj (colons rfl)).2
  · split at found
    · have none := (Lexeme.mk.inj (Except.ok.inj found)).2
      exact absurd (List.length_eq_zero_iff.1 none.symm) more
    · cases found

theorem symbol?_append {previous previous' : Option Token} {kind : TokenKind}
    (found : symbol? previous (body ++ rest) = some ⟨kind, body.length⟩)
    (fits : (body.head?.map isNameStart).getD false = true ∨ endsValue previous' = false)
    (noName : NoName other) (noMark : NoMark other)
    (noGrow : ∀ c ∈ other.head?, grows symbolOperators body c = false) :
    symbol? previous' (body ++ other) = some ⟨kind, body.length⟩ := by
  have long : ∀ operator ∈ symbolOperators, 1 ≤ operator.length := by decide
  cases body with
  | nil =>
    cases rest with
    | nil => cases found
    | cons first rest =>
      simp only [List.nil_append, symbol?] at found
      split at found
      · cases found
      · split at found
        next start =>
          have length := (Lexeme.mk.inj (Option.some.inj found)).2
          simp [nameLength, isNameChar, start] at length
        · split at found
          · cases found
          · obtain ⟨operator, isFirst, same⟩ := Option.map_eq_some_iff.1 found
            have none : operator.length = 0 := (Lexeme.mk.inj same).2
            have some := long operator (List.mem_of_find?_eq_some isFirst)
            omega
  | cons first body =>
    simp only [List.cons_append, symbol?] at found ⊢
    simp only [← List.cons_append] at found ⊢
    split at found
    · cases found
    next noColon =>
      rw [if_neg noColon]
      split at found
      next start =>
        obtain ⟨rfl, length⟩ := Lexeme.mk.inj (Option.some.inj found)
        rw [if_pos start, markedName_append (fun marked => symbolMark_append marked noMark) noName
          length]
      next noStart =>
        rw [if_neg noStart]
        split at found
        · cases found
        next =>
          have calm : ¬ endsValue previous' = true := by
            rw [fits.resolve_left noStart]
            exact Bool.false_ne_true
          obtain ⟨operator, isFirst, same⟩ := Option.map_eq_some_iff.1 found
          obtain ⟨rfl, length⟩ := Lexeme.mk.inj same
          have whole := eq_of_find?_of_length isFirst length
          rw [if_neg calm, find?_append isFirst whole noGrow, Option.map_some, length]

/-! ## Any lexeme -/

/-- Whether a lexeme is read as it is behind the token before it. -/
def Fits (previous : Option Token) (kind : TokenKind) (spelled : List Char) : Prop :=
  match kind with
  | .regexp => endsValue previous = false
  | .symbol => (spelled.tail.head?.map isNameStart).getD false = true ∨ endsValue previous = false
  | .op => (spelled.head? = some '/' → endsValue previous = true) ∧ spelled ≠ [':']
  | .label => afterCallOperator previous = false
  | .keyword | .ident | .const => kind = wordKind previous spelled
  | _ => True

/-- The text behind a lexeme does not continue it. -/
structure Closed (other : List Char) : Prop where
  noName : NoName other
  noMark : NoMark other
  noFraction : fractionLength other = 0
  noLabel : isLabelColon other = false

/-- Whether a lexeme ends before a text. -/
def Stops (kind : TokenKind) (spelled other : List Char) : Prop :=
  match kind with
  | .string => True
  | .symbol => Closed other ∧ ∀ c ∈ other.head?, grows symbolOperators spelled.tail c = false
  | .op => ∀ c ∈ other.head?, grows longOperators spelled c = false
  | .label => other.head? ≠ some ':'
  | _ => Closed other

theorem kind_of_number {text : List Char} {kind : TokenKind} {length : Nat}
    (found : number text = .ok ⟨kind, length⟩) : kind = .int ∨ kind = .float := by
  obtain ⟨fraction, exponent, -, -, rfl, -⟩ := number_eq_ok.1 found
  split
  · exact .inl rfl
  · exact .inr rfl

theorem string_eq_ok {quote : Char} {text : List Char} {kind : TokenKind} {length : Nat} :
    string quote text = .ok ⟨kind, length⟩ ↔
      stringLength? quote 0 text = some length ∧ (text.take length).contains '\n' = false ∧
        kind = .string := by
  unfold string
  split
  next unclosed => simp [unclosed]
  next extra closed =>
    rw [closed]
    split
    next inner =>
      simp only [Option.some.injEq, reduceCtorEq, false_iff]
      rintro ⟨rfl, none, -⟩
      rw [inner] at none
      cases none
    next inner =>
      simp only [Except.ok.injEq, Lexeme.mk.injEq, Option.some.injEq]
      constructor
      · rintro ⟨rfl, rfl⟩
        exact ⟨rfl, by simpa using inner, rfl⟩
      · rintro ⟨rfl, -, rfl⟩
        exact ⟨rfl, rfl⟩

theorem string_append {quote : Char} {kind : TokenKind} (isQuote : quote = '"' ∨ quote = '\'')
    (found : string quote (body ++ rest) = .ok ⟨kind, body.length⟩) :
    string quote (body ++ other) = .ok ⟨kind, body.length⟩ := by
  rw [string_eq_ok, List.take_left] at found ⊢
  refine ⟨stringLength?_append ?_ ?_ found.1, found.2⟩
  all_goals rcases isQuote with rfl | rfl <;> decide

theorem kind_of_sigilName {sigil : Char} {text : List Char} {kind : TokenKind} {length : Nat}
    (found : sigilName sigil text = .ok ⟨kind, length⟩) :
    kind = .ivar ∨ kind = .cvar ∨ kind = .gvar := by
  rw [sigilName_eq_ok] at found
  split at found
  · exact .inr (.inl found.1)
  · rw [found.1]
    split
    · exact .inl rfl
    · exact .inr (.inr rfl)

theorem kind_of_symbol? {previous : Option Token} {text : List Char} {lexeme : Lexeme}
    (found : symbol? previous text = some lexeme) : lexeme.kind = .symbol := by
  unfold symbol? at found
  split at found
  · cases found
  · split at found
    · cases found
    · split at found
      · cases found
        rfl
      · split at found
        · cases found
        · obtain ⟨operator, -, rfl⟩ := Option.map_eq_some_iff.1 found
          rfl

theorem kind_of_operator {first : Char} {text : List Char} {lexeme : Lexeme}
    (found : operator first text = .ok lexeme) : lexeme.kind = .op := by
  unfold operator at found
  split at found
  · cases found
    rfl
  · split at found <;> cases found
    rfl

theorem regexp_eq_ok {text : List Char} {kind : TokenKind} {length : Nat} :
    regexp text = .ok ⟨kind, length⟩ ↔ regexpLength? text = some length ∧ kind = .regexp := by
  unfold regexp
  split
  next unclosed => simp [unclosed]
  next extra closed => simp [closed, and_comm, eq_comm]

theorem wordOrOperator_append {previous previous' : Option Token} {first : Char}
    {kind : TokenKind}
    (found : wordOrOperator previous first (body ++ rest) = .ok ⟨kind, body.length⟩)
    (fits : Fits previous' kind (first :: body)) (stops : Stops kind (first :: body) other) :
    wordOrOperator previous' first (body ++ other) = .ok ⟨kind, body.length⟩ := by
  unfold wordOrOperator at found ⊢
  split at found
  next start =>
    rw [if_pos start]
    have isWord : word previous first (body ++ rest) = ⟨kind, body.length⟩ := Except.ok.inj found
    congr 1
    by_cases isLabel : kind = .label
    · subst isLabel
      exact label_append isWord fits stops
    · obtain ⟨length, kinds⟩ := wordLength_of_word isWord isLabel
      have closed : Closed other ∧ kind = wordKind previous' (first :: body) := by
        obtain rfl | rfl | rfl : kind = .keyword ∨ kind = .const ∨ kind = .ident := by
          rw [kinds, wordKind]
          split
          · exact .inl rfl
          · split
            · exact .inr (.inl rfl)
            · exact .inr (.inr rfl)
        all_goals exact ⟨stops, fits⟩
      rw [closed.2]
      exact word_of_wordLength (wordLength_append length closed.1.noName closed.1.noMark)
        closed.1.noLabel
  next noStart =>
    rw [if_neg noStart]
    obtain rfl : kind = .op := kind_of_operator found
    exact operator_append found stops

/-- A lexeme is found again behind another token and before another text. -/
theorem find_append {previous previous' : Option Token} {first : Char} {kind : TokenKind}
    (found : find previous first (body ++ rest) = .ok ⟨kind, body.length⟩)
    (fits : Fits previous' kind (first :: body)) (stops : Stops kind (first :: body) other) :
    find previous' first (body ++ other) = .ok ⟨kind, body.length⟩ := by
  unfold find at found ⊢
  split at found
  next digit =>
    rw [if_pos digit]
    have closed : Closed other := by
      obtain rfl | rfl := kind_of_number found <;> exact stops
    exact number_append found closed.noName closed.noFraction
  next noDigit =>
  rw [if_neg noDigit]
  split at found
  next quote =>
    rw [if_pos quote]
    exact string_append quote found
  next noQuote =>
  rw [if_neg noQuote]
  split at found
  next sigil =>
    rw [if_pos sigil]
    have closed : Closed other := by
      obtain rfl | rfl | rfl := kind_of_sigilName found <;> exact stops
    exact sigilName_append found closed.noName
  next noSigil =>
  rw [if_neg noSigil]
  split at found
  next colon =>
    subst colon
    rw [if_pos rfl]
    split at found
    next lexeme isSymbol =>
      cases found
      obtain rfl : kind = .symbol := kind_of_symbol? isSymbol
      rw [symbol?_append isSymbol fits stops.1.noName stops.1.noMark stops.2]
    next noSymbol =>
      obtain rfl : kind = .op := kind_of_operator found
      -- no symbol starts with two colons
      obtain rfl : body = [':'] := eq_colon_of_operator found fun none => fits.2 (by rw [none])
      exact operator_append found stops
  next noColon =>
  rw [if_neg noColon]
  split at found
  next isRegexp =>
    rw [regexp_eq_ok] at found
    obtain ⟨closes, rfl⟩ := found
    rw [if_pos ⟨isRegexp.1, fits⟩, regexp_eq_ok]
    exact ⟨regexpLength?_append closes stops.noName, rfl⟩
  next noRegexp =>
    rw [if_neg]
    · exact wordOrOperator_append found fits stops
    · rintro ⟨rfl, noValue⟩
      obtain rfl : kind = .op := kind_of_operator found
      rw [fits.1 rfl] at noValue
      cases noValue

end Lexeme

end RubyFormat
