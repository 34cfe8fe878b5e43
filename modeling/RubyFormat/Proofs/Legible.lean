import RubyFormat.Proofs.Plain
import RubyFormat.Proofs.Spelling

/-!
# Marks that are read back

The text of marks is scanned to just these marks if each of them fits behind the one before it and
stops before the text behind it.  The marks of a plain tree do so, provided that every one of them
is spelled as a lexeme: an operator without blanks around it never runs into its operands.
-/

namespace RubyFormat

/-- The kind and the text of a token. -/
structure Sign where
  kind : TokenKind
  text : String
  deriving DecidableEq, Repr

/-- What a token is, without its place. -/
def Token.sign (token : Token) : Sign :=
  ⟨token.kind, token.text⟩

/-- What a mark is, without its blanks. -/
def Mark.sign (mark : Mark) : Sign :=
  ⟨mark.kind, mark.text⟩

namespace Sign

/-- The characters of a token; a symbol has its colon. -/
def spelling (sign : Sign) : List Char :=
  (Mark.mk 0 sign.kind sign.text).spelling

/-- The characters of a sign make one lexeme of its kind, in some text and not behind a call
operator. -/
def Spelled (sign : Sign) : Prop :=
  ∃ previous first body rest, Lexeme.afterCallOperator previous = false ∧
    Lexeme.find previous first (body ++ rest) = .ok ⟨sign.kind, body.length⟩ ∧
    sign.spelling = first :: body

/-- The text of a lexeme that is spelled like a sign is that of the sign. -/
theorem text_eq {sign : Sign} {first : Char} {body : List Char}
    (same : sign.spelling = first :: body) (rest : List Char) :
    Lexeme.text ⟨sign.kind, body.length⟩ first (body ++ rest) = sign.text := by
  obtain ⟨kind, text⟩ := sign
  unfold Lexeme.text
  simp only [List.take_left]
  simp only [spelling, Mark.spelling] at same
  split at same
  · rw [← (List.cons.inj same).2, String.ofList_toList]
  · rw [← same]
    simp

end Sign

/-! ## Scanning marks -/

namespace Tokens

theorem scan_blanks (blanks : Nat) (previous : Option Token) (pos : Pos) (spaced : Bool)
    (text : List Char) :
    ∃ later gap, scan 0 previous pos spaced (List.replicate blanks ' ' ++ text) =
      scan 0 previous later gap text := by
  induction blanks generalizing pos spaced with
  | zero => exact ⟨pos, spaced, rfl⟩
  | succ blanks ih =>
      obtain ⟨later, gap, same⟩ := ih (pos.right 1) true
      refine ⟨later, gap, ?_⟩
      rw [← same, List.replicate_succ, List.cons_append, scan]
      simp [isGap]

/-- A lexeme is scanned to the token that it makes. -/
theorem scan_lexeme {previous : Option Token} {first : Char} {body rest : List Char}
    {kind : TokenKind} (found : Lexeme.find previous first (body ++ rest) = .ok ⟨kind, body.length⟩)
    (noEnd : isEndMark (first :: body ++ rest) = false) (pos : Pos) (spaced : Bool) :
    ∃ token later,
      token.sign = ⟨kind, Lexeme.text ⟨kind, body.length⟩ first (body ++ rest)⟩ ∧
      scan 0 previous pos spaced (first :: body ++ rest) =
        (scan 0 (some token) later false rest).map (cons token) := by
  refine ⟨⟨kind, Lexeme.text ⟨kind, body.length⟩ first (body ++ rest), pos, spaced⟩,
    pos.right (body.length + 1), rfl, ?_⟩
  rw [List.cons_append] at noEnd ⊢
  rw [scan_of_find found (by simp [noEnd]), List.drop_left]

end Tokens

namespace Mark

/-- Marks that a scan behind the given token gives back. -/
def ReadBack : Option Token → List Mark → Prop
  | _, [] => True
  | previous, mark :: rest =>
      (mark.sign = newline.sign ∨ mark.sign.Spelled ∧ Lexeme.Fits previous mark.kind mark.spelling ∧
        Lexeme.Stops mark.kind mark.spelling (written rest) ∧
        Tokens.isEndMark (mark.spelling ++ written rest) = false) ∧
      ∀ token : Token, token.sign = mark.sign → ReadBack (some token) rest

/-- The text of marks that are read back is scanned to tokens with their signs. -/
theorem scan_written {marks : List Mark} {previous : Option Token}
    (readBack : ReadBack previous marks) (pos : Pos) (spaced : Bool) :
    ∃ tokens, Tokens.scan 0 previous pos spaced (written marks) = .ok tokens ∧
      tokens.body.map Token.sign = marks.map sign ∧ tokens.close.kind = .eof := by
  induction marks generalizing previous pos spaced with
  | nil => exact ⟨_, rfl, rfl, rfl⟩
  | cons mark rest ih =>
      obtain ⟨here, behind⟩ := readBack
      -- both kinds of mark are scanned to one token, behind which the rest is scanned
      suffices step : ∃ token later, token.sign = mark.sign ∧
          Tokens.scan 0 previous pos spaced (written (mark :: rest)) =
            (Tokens.scan 0 (some token) later false (written rest)).map (Tokens.cons token) by
        obtain ⟨token, later, same, scanned⟩ := step
        obtain ⟨tokens, ran, signs, close⟩ := ih (behind token same) later false
        refine ⟨tokens.cons token, ?_, ?_, close⟩
        · rw [scanned, ran]
          rfl
        · simp [Tokens.cons, signs, same]
      obtain ⟨start, gap, skipped⟩ :=
        Tokens.scan_blanks mark.blanks previous pos spaced (mark.spelling ++ written rest)
      rcases here with isBreak | ⟨⟨_, first, body, text, -, found, spelled⟩, fits, stops, noEnd⟩
      · refine ⟨⟨.newline, "\n", start, gap⟩, start.nextLine, isBreak.symm, ?_⟩
        have same : mark.spelling = ['\n'] := congrArg Sign.spelling isBreak
        rw [written_cons, chars, List.append_assoc, skipped, same, List.singleton_append,
          Tokens.scan]
        simp
      · have same : mark.spelling = first :: body := spelled
        rw [same] at fits stops noEnd
        have again := Lexeme.find_append found fits stops
        obtain ⟨token, later, isToken, scanned⟩ := Tokens.scan_lexeme again noEnd start gap
        refine ⟨token, later, ?_, ?_⟩
        · exact isToken.trans (congrArg (Sign.mk mark.kind) (Sign.text_eq spelled _))
        · rw [written_cons, chars, List.append_assoc, skipped, same, scanned]

end Mark

/-! ## What stands before and behind a sign -/

/-- A token behind which a value can start. -/
structure Opens (previous : Option Token) : Prop where
  noValue : Lexeme.endsValue previous = false
  noCall : Lexeme.afterCallOperator previous = false

/-- Whether a value ends before a text. -/
def closesValue : List Char → Bool
  | [] => true
  | '.' :: rest => rest.head? == some '.'
  | c :: _ => [' ', '\n', ',', ')', ']', '\x7d', '*'].contains c

namespace Lexeme

theorem noCall_of_endsValue {token : Token} (ends : endsValue (some token) = true) :
    afterCallOperator (some token) = false := by
  have others : ∀ text ∈ [")", "]", "\x7d"], callOperators.contains text = false := by decide
  simp only [endsValue] at ends
  simp only [afterCallOperator, Token.isOpIn]
  cases kind : token.kind with
  | op =>
      simp only [kind] at ends
      rw [others token.text (List.contains_iff_mem.1 ends), Bool.and_false]
  | _ => rfl

theorem mem_of_closesValue {other : List Char} (closes : closesValue other = true) :
    ∀ c ∈ other.head?, c ∈ [' ', '\n', ',', ')', ']', '\x7d', '*', '.'] := by
  intro c head
  unfold closesValue at closes
  split at closes
  · cases head
  · obtain rfl : '.' = c := by simpa using head
    decide
  next first rest _ =>
    obtain rfl : first = c := by simpa using head
    rw [List.contains_iff_mem] at closes
    simp only [List.mem_cons, List.not_mem_nil, or_false] at closes ⊢
    tauto

/-- Nothing that a value ends before continues a lexeme. -/
theorem closed_of_closesValue {other : List Char} (closes : closesValue other = true) :
    Closed other where
  noName := by
    have none : ∀ c ∈ [' ', '\n', ',', ')', ']', '\x7d', '*', '.'], isNameChar c = false := by decide
    exact fun c head => none c (mem_of_closesValue closes c head)
  noMark := by
    have none : ∀ c ∈ [' ', '\n', ',', ')', ']', '\x7d', '*', '.'], c ∉ ['?', '!', '=', '>', '~'] := by
      decide
    exact fun c head => none c (mem_of_closesValue closes c head)
  noFraction := by
    cases other with
    | nil => rfl
    | cons c rest =>
        by_cases point : c = '.'
        · subst point
          cases rest with
          | nil => rfl
          | cons d rest =>
              obtain rfl : d = '.' := by simpa [closesValue] using closes
              simp [fractionLength]
        · exact fractionLength_of_ne point rest
  noLabel := by
    have none : ':' ∉ [' ', '\n', ',', ')', ']', '\x7d', '*', '.'] := by decide
    cases other with
    | nil => rfl
    | cons c rest =>
        have noColon : c ≠ ':' := by
          rintro rfl
          exact none (mem_of_closesValue closes ':' rfl)
        simp [isLabelColon, noColon]

/-- A text grows by a character only towards an operator with that character in this place. -/
theorem exists_of_grows {operators : List String} {text : List Char} {c : Char}
    (grown : grows operators text c = true) :
    ∃ operator ∈ operators, operator.toList.take text.length = text ∧
      operator.toList[text.length]? = some c := by
  obtain ⟨operator, known, starts⟩ := List.any_eq_true.1 grown
  obtain ⟨more, same⟩ := List.isPrefixOf_iff_prefix.1 starts
  refine ⟨operator, known, ?_, ?_⟩
  · rw [← same, List.append_assoc, List.take_left]
  · rw [← same, List.append_assoc, List.getElem?_append_right (Nat.le_refl _), Nat.sub_self]
    rfl

/-- No operator has a blank in it. -/
theorem grows_gap {operators : List String}
    (solid : ∀ operator ∈ operators, ' ' ∉ operator.toList) (text : List Char) :
    grows operators text ' ' = false := by
  rw [Bool.eq_false_iff]
  intro grown
  obtain ⟨operator, known, -, there⟩ := exists_of_grows grown
  exact solid operator known (List.mem_of_getElem? there)

/-- A symbol does not grow by a character that a value ends before, the star apart. -/
theorem grows_symbol {body : List Char} {c : Char} (mem : c ∈ [' ', '\n', ',', ')', ']', '\x7d', '.'])
    (noBracket : body ≠ ['[']) : grows symbolOperators body c = false := by
  have table : ∀ operator ∈ symbolOperators, operator.toList.length < 4 ∧
      ∀ index < 4, ∀ c ∈ [' ', '\n', ',', ')', ']', '\x7d', '.'],
        operator.toList[index]? = some c → operator.toList.take index = ['['] := by decide
  rw [Bool.eq_false_iff]
  intro grown
  obtain ⟨operator, known, taken, there⟩ := exists_of_grows grown
  obtain ⟨short, only⟩ := table operator known
  obtain ⟨within, -⟩ := List.getElem?_eq_some_iff.1 there
  exact noBracket (taken.symm.trans (only body.length (Nat.lt_trans within short) c mem there))

/-- The operators that are written right before an operand. -/
def tightSigns : List String := ["-", "+", "!", "**", "..", "..."]

/-- An operator right before an operand does not grow by the first character of the operand. -/
theorem grows_tight {text : String} (isTight : text ∈ tightSigns) {c : Char}
    (other : c ∉ ['=', '>', '~', '.']) : grows longOperators text.toList c = false := by
  have table : ∀ text ∈ tightSigns, ∀ operator ∈ longOperators,
      operator.toList.take text.toList.length = text.toList →
      ∀ c ∈ operator.toList[text.toList.length]?, c ∈ ['=', '>', '~', '.'] := by decide
  rw [Bool.eq_false_iff]
  intro grown
  obtain ⟨operator, known, taken, there⟩ := exists_of_grows grown
  exact other (table text isTight operator known taken c there)

/-- The signs around and between operands. -/
def brackets : List String := ["(", ")", "[", "]", "\x7b", "\x7d", ","]

/-- No operator starts with a bracket or a comma. -/
theorem grows_bracket {text : String} (isBracket : text ∈ brackets) (c : Char) :
    grows longOperators text.toList c = false := by
  have table : ∀ text ∈ brackets, ∀ operator ∈ longOperators,
      operator.toList.take text.toList.length ≠ text.toList := by decide
  rw [Bool.eq_false_iff]
  intro grown
  obtain ⟨operator, known, taken, -⟩ := exists_of_grows grown
  exact table text isBracket operator known taken

/-- Only a name or a label starts with an underscore. -/
theorem ne_underscore_of_find {previous : Option Token} {first : Char} {body rest : List Char}
    {kind : TokenKind} (found : find previous first (body ++ rest) = .ok ⟨kind, body.length⟩)
    (noIdent : kind ≠ .ident) (noLabel : kind ≠ .label) : first ≠ '_' := by
  have words : ∀ word ∈ keywords, word.toList.head? ≠ some '_' := by decide
  rintro rfl
  rcases find_cases found with ⟨digit, -⟩ | ⟨quote, -⟩ | ⟨sigil, -⟩ | ⟨colon, -⟩ | ⟨slash, -⟩ |
    ⟨-, isWord⟩ | ⟨noName, -⟩
  · cases digit
  · rcases quote with quote | quote <;> cases quote
  · rcases sigil with sigil | sigil <;> cases sigil
  · cases colon
  · cases slash
  · obtain ⟨-, isKind⟩ := wordLength_of_word isWord noLabel
    unfold wordKind at isKind
    split at isKind
    next isKeyword =>
      have known := List.contains_iff_mem.1 (Bool.and_eq_true_iff.1 isKeyword).1
      exact words _ known (by simp)
    · split at isKind
      next upper => cases upper
      · exact noIdent isKind
  · cases noName

end Lexeme

namespace Tokens

theorem not_isEndMark_of_first {first : Char} (other : first ≠ '_') (text : List Char) :
    isEndMark (first :: text) = false := by
  have noPrefix : "__END__".toList.isPrefixOf (first :: text) = false := by
    simp [List.isPrefixOf, Ne.symm other]
  rw [isEndMark, noPrefix, Bool.false_and]

/-- A line with a blank behind its first word is not the mark that ends the program. -/
theorem not_isEndMark_of_gap {spelled : List Char} (single : '\n' ∉ spelled) (more : List Char) :
    isEndMark (spelled ++ ' ' :: more) = false := by
  have solid : ' ' ∉ "__END__".toList := by decide
  have length : "__END__".toList.length = 7 := by decide
  rw [Bool.eq_false_iff]
  intro isMark
  simp only [isEndMark, Bool.and_eq_true, Bool.or_eq_true, beq_iff_eq,
    List.isPrefixOf_iff_prefix] at isMark
  obtain ⟨⟨tail, same⟩, ends⟩ := isMark
  rw [← same, ← length, List.drop_left] at ends
  rcases List.append_eq_append_iff.1 same with ⟨part, whole, rest⟩ | ⟨part, whole, rest⟩
  · cases part with
    | nil => simp [rest] at ends
    | cons c part =>
        obtain rfl : c = '\n' := by simpa [rest] using ends
        exact single (by simp [whole])
  · cases part with
    | nil =>
        rw [List.nil_append] at rest
        simp [← rest] at ends
    | cons c part =>
        obtain ⟨rfl, -⟩ := List.cons.inj rest
        exact solid (by rw [whole]; simp)

end Tokens

namespace Sign.Spelled

variable {sign : Sign} {previous : Option Token} {other : List Char}

/-- The first character of a sign is none that separates tokens, and the sign is trimmed. -/
theorem trimmed (spelled : sign.Spelled) :
    Text.isTrimmed sign.spelling = true ∧ ∃ first body, sign.spelling = first :: body ∧
      first ≠ '\n' := by
  obtain ⟨before, first, body, rest, -, found, same⟩ := spelled
  have trimmed := Lexeme.isTrimmed_of_find found
  rw [List.take_left] at trimmed
  refine ⟨same ▸ trimmed, first, body, same, ?_⟩
  rintro rfl
  exact Lexeme.ne_of_find found List.mem_cons_self

/-- A sign that is no operator starts with none of the characters that operators go on with. -/
theorem head_ne (spelled : sign.Spelled) (noOp : sign.kind ≠ .op) :
    ∀ c ∈ sign.spelling.head?, c ∉ ['=', '>', '~', '.'] := by
  have none : ∀ c ∈ ['=', '>', '~', '.'], Lexeme.startsOperand c = false := by decide
  obtain ⟨before, first, body, rest, -, found, same⟩ := spelled
  intro c head mem
  rw [same] at head
  obtain rfl : first = c := by simpa using head
  rcases Lexeme.starts_of_find found with ⟨isOp, -⟩ | starts
  · exact noOp isOp
  · exact Bool.false_ne_true ((none first mem).symm.trans starts)

/-- A word is of the same kind behind every token that is no call operator. -/
theorem wordKind_eq (spelled : sign.Spelled)
    (isWord : sign.kind = .keyword ∨ sign.kind = .const ∨ sign.kind = .ident)
    (noCall : Lexeme.afterCallOperator previous = false) :
    sign.kind = Lexeme.wordKind previous sign.spelling := by
  obtain ⟨before, first, body, rest, noCallBefore, found, same⟩ := spelled
  rw [same, Lexeme.wordKind_congr noCall noCallBefore]
  exact (Lexeme.wordKind_of_find found isWord).2

/-- A sign that is no operator fits where a value can start. -/
theorem fits (spelled : sign.Spelled) (noOp : sign.kind ≠ .op) (opens : Opens previous) :
    Lexeme.Fits previous sign.kind sign.spelling := by
  have word := @wordKind_eq sign previous spelled
  obtain ⟨kind, text⟩ := sign
  cases kind with
  | op => exact absurd rfl noOp
  | regexp => exact opens.noValue
  | symbol => exact .inr opens.noValue
  | label => exact opens.noCall
  | keyword => exact word (.inl rfl) opens.noCall
  | const => exact word (.inr (.inl rfl)) opens.noCall
  | ident => exact word (.inr (.inr rfl)) opens.noCall
  | _ => trivial

/-- A sign that is a value stops where a value ends. -/
theorem stops (spelled : sign.Spelled) (noOp : sign.kind ≠ .op) (noLabel : sign.kind ≠ .label)
    (closes : closesValue other = true)
    (noStar : sign.kind = .symbol → other.head? ≠ some '*') :
    Lexeme.Stops sign.kind sign.spelling other := by
  have closed := Lexeme.closed_of_closesValue closes
  obtain ⟨before, first, body, rest, -, found, same⟩ := spelled
  rw [same]
  obtain ⟨kind, text⟩ := sign
  cases kind with
  | op => exact absurd rfl noOp
  | label => exact absurd rfl noLabel
  | string => trivial
  | symbol =>
      refine ⟨closed, fun c head => Lexeme.grows_symbol ?_ ?_⟩
      · have mem := Lexeme.mem_of_closesValue closes c head
        have other : c ≠ '*' := fun star => noStar rfl (star ▸ head)
        simp only [List.mem_cons, List.not_mem_nil, or_false] at mem ⊢
        tauto
      · have none : ∀ operator ∈ symbolOperators, ['['] ≠ operator.toList := by decide
        rintro bracket
        obtain ⟨-, isSymbol⟩ := Lexeme.symbol?_of_find found
        rcases Lexeme.name_of_symbol? isSymbol with start | ⟨operator, known, whole⟩
        · rw [show body = ['['] from bracket] at start
          cases start
        · exact none operator known ((show ['['] = body from bracket.symm).trans whole)
  | _ => exact closed

/-- Every sign stops before a blank. -/
theorem stops_gap (sign : Sign) (more : List Char) :
    Lexeme.Stops sign.kind sign.spelling (' ' :: more) := by
  have closed := Lexeme.closed_of_closesValue (show closesValue (' ' :: more) = true from rfl)
  have symbols : ∀ operator ∈ symbolOperators, ' ' ∉ operator.toList := by decide
  have operators : ∀ operator ∈ longOperators, ' ' ∉ operator.toList := by decide
  unfold Lexeme.Stops
  split
  · trivial
  · refine ⟨closed, fun c head => ?_⟩
    obtain rfl : ' ' = c := by simpa using head
    exact Lexeme.grows_gap symbols _
  · intro c head
    obtain rfl : ' ' = c := by simpa using head
    exact Lexeme.grows_gap operators _
  · simp
  · exact closed

/-- Only a name or a label can be taken for the mark that ends the program. -/
theorem noEnd (spelled : sign.Spelled) (noIdent : sign.kind ≠ .ident)
    (noLabel : sign.kind ≠ .label) (other : List Char) :
    Tokens.isEndMark (sign.spelling ++ other) = false := by
  obtain ⟨before, first, body, rest, -, found, same⟩ := spelled
  rw [same]
  exact Tokens.not_isEndMark_of_first (Lexeme.ne_underscore_of_find found noIdent noLabel) _

/-- Before a blank no sign is the mark that ends the program. -/
theorem noEnd_gap (spelled : sign.Spelled) (more : List Char) :
    Tokens.isEndMark (sign.spelling ++ ' ' :: more) = false := by
  by_cases isName : sign.kind = .ident ∨ sign.kind = .label
  · obtain ⟨before, first, body, rest, -, found, same⟩ := spelled
    have blank : Text.isBlank '\n' = true := by decide
    refine Tokens.not_isEndMark_of_gap (fun mem => ?_) more
    rcases Lexeme.solid_or_of_find found with solid | ⟨-, isString⟩ | ⟨-, isRegexp⟩
    · rw [List.take_left, ← same] at solid
      exact Bool.false_ne_true ((solid '\n' mem).symm.trans blank)
    · simp [(Lexeme.string_eq_ok.1 isString).2.2] at isName
    · simp [(Lexeme.regexp_eq_ok.1 isRegexp).2] at isName
  · rw [not_or] at isName
    exact spelled.noEnd isName.1 isName.2 _

end Sign.Spelled

namespace Mark.ReadBack

variable {previous : Option Token} {mark : Mark} {marks rest : List Mark}

/-- The blanks before the first of some marks do not matter for the marks themselves. -/
theorem behind (blanks : Nat) (readBack : ReadBack previous (marks ++ rest)) :
    ReadBack previous (Mark.behind blanks marks ++ rest) := by
  cases marks with
  | nil => exact readBack
  | cons mark marks => exact readBack

/-- A value is read back where one can start, before a text that does not continue it. -/
theorem value (spelled : mark.sign.Spelled) (isValue : mark.kind ∉ [.op, .label, .ident])
    (opens : Opens previous) (closes : closesValue (written rest) = true)
    (noStar : mark.kind = .symbol → (written rest).head? ≠ some '*')
    (more : ∀ token : Token, token.sign = mark.sign → ReadBack (some token) rest) :
    ReadBack previous (mark :: rest) := by
  simp only [List.mem_cons, List.not_mem_nil, or_false, not_or] at isValue
  obtain ⟨noOp, noLabel, noIdent⟩ := isValue
  exact ⟨.inr ⟨spelled, spelled.fits noOp opens, spelled.stops noOp noLabel closes noStar,
    spelled.noEnd noIdent noLabel _⟩, more⟩

/-- A sign that fits is read back before a blank. -/
theorem gap (spelled : mark.sign.Spelled) (fits : Lexeme.Fits previous mark.kind mark.spelling)
    (blank : (written rest).head? = some ' ')
    (more : ∀ token : Token, token.sign = mark.sign → ReadBack (some token) rest) :
    ReadBack previous (mark :: rest) := by
  obtain ⟨text, same⟩ : ∃ text, written rest = ' ' :: text := List.head?_eq_some_iff.1 blank
  refine ⟨.inr ⟨spelled, fits, ?_, ?_⟩, more⟩
  · rw [same]
    exact Sign.Spelled.stops_gap mark.sign text
  · rw [same]
    exact spelled.noEnd_gap text

/-- An operator is read back right before an operand. -/
theorem tight {blanks : Nat} {text : String} (isTight : text ∈ Lexeme.tightSigns)
    (spelled : (Sign.mk .op text).Spelled)
    (others : ∀ c ∈ (written rest).head?, c ∉ ['=', '>', '~', '.'])
    (more : ∀ token : Token, token.sign = ⟨.op, text⟩ → ReadBack (some token) rest) :
    ReadBack previous (⟨blanks, .op, text⟩ :: rest) := by
  have table : ∀ text ∈ Lexeme.tightSigns,
      text.toList.head? ≠ some '/' ∧ text.toList ≠ [':'] := by decide
  obtain ⟨noSlash, noColon⟩ := table text isTight
  exact ⟨.inr ⟨spelled, ⟨fun slash => absurd slash noSlash, noColon⟩,
    fun c head => Lexeme.grows_tight isTight (others c head), spelled.noEnd nofun nofun _⟩, more⟩

/-- A bracket or comma is read back anywhere. -/
theorem bracket {blanks : Nat} {text : String} (isBracket : text ∈ Lexeme.brackets)
    (spelled : (Sign.mk .op text).Spelled)
    (more : ∀ token : Token, token.sign = ⟨.op, text⟩ → ReadBack (some token) rest) :
    ReadBack previous (⟨blanks, .op, text⟩ :: rest) := by
  have table : ∀ text ∈ Lexeme.brackets,
      text.toList.head? ≠ some '/' ∧ text.toList ≠ [':'] := by decide
  obtain ⟨noSlash, noColon⟩ := table text isBracket
  exact ⟨.inr ⟨spelled, ⟨fun slash => absurd slash noSlash, noColon⟩,
    fun c _ => Lexeme.grows_bracket isBracket c, spelled.noEnd nofun nofun _⟩, more⟩

end Mark.ReadBack

/-! ## Operators and the tokens behind them -/

/-- A token with a known sign. -/
theorem Token.kind_of_sign {token : Token} {sign : Sign} (same : token.sign = sign) :
    token.kind = sign.kind ∧ token.text = sign.text :=
  ⟨congrArg Sign.kind same, congrArg Sign.text same⟩

/-- A value can start behind a token that is neither a value nor a call operator. -/
theorem Opens.of_op {token : Token} {text : String} (same : token.sign = ⟨.op, text⟩)
    (noClose : text ∉ [")", "]", "\x7d"]) (noCall : text ∉ callOperators) :
    Opens (some token) := by
  obtain ⟨kind, rfl⟩ := Token.kind_of_sign same
  constructor
  · simpa [Lexeme.endsValue, kind] using noClose
  · simpa [Lexeme.afterCallOperator, Token.isOpIn, kind] using noCall

theorem Opens.of_keyword {token : Token} {text : String} (same : token.sign = ⟨.keyword, text⟩)
    (noValue : text ≠ "end") (noLiteral : text ∉ literalKeywords) : Opens (some token) := by
  obtain ⟨kind, rfl⟩ := Token.kind_of_sign same
  constructor
  · simpa [Lexeme.endsValue, kind] using ⟨noValue, noLiteral⟩
  · simp [Lexeme.afterCallOperator, Token.isOpIn, kind]

/-- A closing bracket ends a value. -/
theorem endsValue_of_close {token : Token} {text : String} (same : token.sign = ⟨.op, text⟩)
    (isClose : text ∈ [")", "]", "\x7d"] := by decide) : Lexeme.endsValue (some token) = true := by
  obtain ⟨kind, rfl⟩ := Token.kind_of_sign same
  simpa [Lexeme.endsValue, kind] using isClose

theorem Opens.of_label {token : Token} {text : String} (same : token.sign = ⟨.label, text⟩) :
    Opens (some token) := by
  obtain ⟨kind, -⟩ := Token.kind_of_sign same
  constructor
  · simp [Lexeme.endsValue, kind]
  · simp [Lexeme.afterCallOperator, Token.isOpIn, kind]

namespace Mark

/-- The signs of marks in a row. -/
def signs (marks : List Mark) : List Sign :=
  marks.map sign

@[simp]
theorem signs_nil : signs [] = [] := rfl

@[simp]
theorem signs_cons (mark : Mark) (rest : List Mark) : signs (mark :: rest) = mark.sign :: signs rest :=
  rfl

@[simp]
theorem signs_append (left right : List Mark) : signs (left ++ right) = signs left ++ signs right :=
  List.map_append

@[simp]
theorem signs_behind (blanks : Nat) (marks : List Mark) : signs (behind blanks marks) = signs marks := by
  cases marks <;> rfl

theorem mem_signs_inLine {items : List (List Mark)} {item : List Mark} (mem : item ∈ items)
    {sign : Sign} (inside : sign ∈ signs item) : sign ∈ signs (inLine items) := by
  cases items with
  | nil => cases mem
  | cons first rest =>
      rw [inLine, join, signs_append, List.mem_append]
      rcases List.mem_cons.1 mem with rfl | mem
      · exact .inl inside
      · right
        simp only [signs, List.map_flatMap, List.mem_flatMap]
        refine ⟨item, mem, ?_⟩
        change sign ∈ signs ([op ","] ++ behind 1 item)
        rw [signs_append, signs_behind]
        exact List.mem_append_right _ inside

/-- Marks behind a blank start with it. -/
theorem head_written_behind {marks : List Mark} (nonempty : marks ≠ []) (rest : List Mark) :
    (written (behind 1 marks ++ rest)).head? = some ' ' := by
  cases marks with
  | nil => exact absurd rfl nonempty
  | cons mark marks => rfl

theorem closesValue_of_gap {text : List Char} (blank : text.head? = some ' ') :
    closesValue text = true ∧ text.head? ≠ some '*' := by
  obtain ⟨rest, rfl⟩ := List.head?_eq_some_iff.1 blank
  exact ⟨rfl, by simp⟩

/-- An operator that is written without blanks can stand behind a value; only the power starts with
a star. -/
theorem closesValue_of_tight {text : String} (isTight : text ∈ Layout.tightOperators)
    (rest : List Mark) : closesValue (written (op text :: rest)) = true ∧
      ((written (op text :: rest)).head? = some '*' → text = "**") := by
  simp only [Layout.tightOperators, List.mem_cons, List.not_mem_nil, or_false] at isTight
  rcases isTight with rfl | rfl | rfl
  · exact ⟨rfl, fun _ => rfl⟩
  · exact ⟨rfl, nofun⟩
  · exact ⟨rfl, nofun⟩

/-- A closing bracket can stand behind a value. -/
theorem closesValue_of_bracket {text : String} (isClose : text ∈ [")", "]", "\x7d"])
    (blanks : Nat) (rest : List Mark) :
    closesValue (written (⟨blanks, .op, text⟩ :: rest)) = true ∧
      (written (⟨blanks, .op, text⟩ :: rest)).head? ≠ some '*' := by
  cases blanks with
  | succ blanks => exact closesValue_of_gap rfl
  | zero =>
      simp only [List.mem_cons, List.not_mem_nil, or_false] at isClose
      rcases isClose with rfl | rfl | rfl <;> exact ⟨rfl, nofun⟩

/-- The operators that are written with a blank on both sides. -/
def infixSigns : List String := Node.binaryOperators ++ Parse.assignOperators ++ ["=", "=>"]

theorem operator_eq_op {text : String} (mem : text ∈ Parse.assignOperators ++ ["=", "=>"]) :
    operator text = op text := by
  have table : ∀ text ∈ Parse.assignOperators ++ ["=", "=>"], operator text = op text := by decide
  exact table text mem

/-- A value can start behind an operator between two values. -/
theorem opens_behind_operator {text : String} (known : text ∈ infixSigns) {token : Token}
    (same : token.sign = (operator text).sign) : Opens (some token) := by
  have table : ∀ text ∈ infixSigns, text ∉ [")", "]", "\x7d"] ∧ text ∉ callOperators ∧
      text ≠ "end" ∧ text ∉ literalKeywords := by decide
  obtain ⟨noClose, noCall, noEnd, noLiteral⟩ := table text known
  by_cases isKeyword : keywords.contains text = true
  · refine .of_keyword ?_ noEnd noLiteral
    rw [same, sign, operator, if_pos isKeyword]
  · refine .of_op ?_ noClose noCall
    rw [same, sign, operator, if_neg isKeyword]

/-- An operator between two values is read back with blanks around it. -/
theorem ReadBack.between {previous : Option Token} {rest : List Mark} {text : String}
    (known : text ∈ infixSigns) (spelled : (operator text).sign.Spelled)
    (ends : Lexeme.endsValue previous = true) (blank : (written rest).head? = some ' ')
    (more : ∀ token : Token, Opens (some token) → ReadBack (some token) rest) :
    ReadBack previous (Mark.behind 1 [operator text] ++ rest) := by
  refine .behind 1 (.gap spelled ?_ blank fun token same => more token (opens_behind_operator known same))
  have noColon : ∀ text ∈ infixSigns, text.toList ≠ [':'] := by decide
  by_cases isKeyword : keywords.contains text = true
  · have isWord : operator text = ⟨0, .keyword, text⟩ := by rw [operator, if_pos isKeyword]
    rw [isWord] at spelled ⊢
    cases previous with
    | none => cases ends
    | some token => exact spelled.wordKind_eq (.inl rfl) (Lexeme.noCall_of_endsValue ends)
  · have isOp : operator text = ⟨0, .op, text⟩ := by rw [operator, if_neg isKeyword]
    rw [isOp]
    exact ⟨fun _ => ends, noColon text known⟩

/-- Marks that are read back where a value can start, before any text that does not continue it;
unless they end safely, the text must not start with a star. -/
def Readable (safe : Bool) (marks : List Mark) : Prop :=
  ∀ (previous : Option Token) (rest : List Mark), Opens previous →
    closesValue (written rest) = true → (safe = false → (written rest).head? ≠ some '*') →
    (∀ token : Token, Lexeme.endsValue (some token) = true → ReadBack (some token) rest) →
    ReadBack previous (marks ++ rest)

/-- A spelled sign behind blanks ends no line with a blank. -/
theorem isTrimmed_chars {mark : Mark} (spelled : mark.sign.Spelled) :
    Text.isTrimmed mark.chars = true := by
  obtain ⟨trimmed, first, body, same, noBreak⟩ := spelled.trimmed
  have whole (blanks : Nat) :
      Text.isTrimmed (List.replicate blanks ' ' ++ first :: body) = true := by
    induction blanks with
    | zero => exact same ▸ trimmed
    | succ blanks ih =>
        rw [List.replicate_succ, List.cons_append, Text.isTrimmed, ih]
        cases blanks <;> simp [List.replicate_succ, noBreak]
  rw [chars, show mark.spelling = first :: body from same]
  exact whole mark.blanks

theorem isTrimmed_written {marks : List Mark}
    (each : ∀ mark ∈ marks, mark = newline ∨ mark.sign.Spelled) :
    Text.isTrimmed (written marks) = true := by
  induction marks with
  | nil => rfl
  | cons mark rest ih =>
      obtain ⟨first, others⟩ := List.forall_mem_cons.1 each
      rw [written_cons]
      refine Text.isTrimmed_append ?_ (ih others)
      rcases first with rfl | spelled
      · rfl
      · exact isTrimmed_chars spelled

theorem Readable.weaken {safe : Bool} {marks : List Mark} (readable : Readable safe marks) :
    Readable false marks :=
  fun previous rest opens closes noStar more =>
    readable previous rest opens closes (fun _ => noStar rfl) more

theorem comma_spelled : (Sign.mk .op ",").Spelled :=
  ⟨none, ',', [], [], rfl, by decide, rfl⟩

/-- Values with commas between them are read back like one value. -/
theorem Readable.inLine {items : List (List Mark)} (nonempty : items ≠ [])
    (each : ∀ item ∈ items, Readable false item) : Readable false (Mark.inLine items) := by
  intro previous rest opens closes noStar more
  -- what stands behind the first value starts with a comma or is the rest
  have tail (items : List (List Mark)) (each : ∀ item ∈ items, Readable false item) :
      closesValue (written ((items.flatMap fun item => op "," :: behind 1 item) ++ rest)) = true ∧
      (written ((items.flatMap fun item => op "," :: behind 1 item) ++ rest)).head? ≠ some '*' ∧
      ∀ token : Token, Lexeme.endsValue (some token) = true →
        ReadBack (some token) ((items.flatMap fun item => op "," :: behind 1 item) ++ rest) := by
    induction items with
    | nil => exact ⟨closes, noStar rfl, more⟩
    | cons item items ih =>
        obtain ⟨first, others⟩ := List.forall_mem_cons.1 each
        obtain ⟨closes, noStar, more⟩ := ih others
        refine ⟨rfl, nofun, fun token _ => ?_⟩
        rw [List.flatMap_cons, List.cons_append, List.cons_append, List.append_assoc]
        refine .bracket (by decide) comma_spelled fun token same => .behind 1 ?_
        exact first _ _ (.of_op same (by decide) (by decide)) closes (fun _ => noStar) more
  cases items with
  | nil => exact absurd rfl nonempty
  | cons item items =>
      obtain ⟨first, others⟩ := List.forall_mem_cons.1 each
      obtain ⟨closes, noStar, more⟩ := tail items others
      rw [Mark.inLine, join, List.append_assoc]
      exact first _ _ opens closes (fun _ => noStar) more

theorem Readable.behind {safe : Bool} {marks : List Mark} (blanks : Nat)
    (readable : Readable safe marks) : Readable safe (Mark.behind blanks marks) :=
  fun previous rest opens closes noStar more =>
    .behind blanks (readable previous rest opens closes noStar more)

/-- What is read back can stand in brackets, and the brackets may also be empty. -/
theorem Readable.enclosed {safe : Bool} {first last : String} {inner : List Mark}
    (isOpen : first ∈ ["(", "[", "\x7b"]) (isClose : last ∈ [")", "]", "\x7d"])
    (opened : (Sign.mk .op first).Spelled) (closed : (Sign.mk .op last).Spelled)
    (readable : inner = [] ∨ Readable false inner) (blanks : Nat) :
    Readable safe (op first :: inner ++ [⟨blanks, .op, last⟩]) := by
  intro previous rest _ _ _ more
  have openers : ∀ text ∈ ["(", "[", "\x7b"], text ∈ Lexeme.brackets ∧
      text ∉ [")", "]", "\x7d"] ∧ text ∉ callOperators := by decide
  have closers : ∀ text ∈ [")", "]", "\x7d"], text ∈ Lexeme.brackets := by decide
  obtain ⟨isBracket, noClose, noCall⟩ := openers first isOpen
  have close (token : Token) : ReadBack (some token) (⟨blanks, .op, last⟩ :: rest) :=
    .bracket (closers last isClose) closed fun token same =>
      more token (endsValue_of_close same isClose)
  rw [List.cons_append, List.cons_append, List.append_assoc]
  refine .bracket isBracket opened fun token same => ?_
  rcases readable with rfl | readable
  · exact close token
  · obtain ⟨closes, noStar⟩ := closesValue_of_bracket isClose blanks rest
    exact readable _ _ (.of_op same noClose noCall) closes (fun _ => noStar) fun token _ =>
      close token

section Infix

variable {safe : Bool} {text : String} {left right : List Mark}

/-- Two values with an operator and blanks between them are read back. -/
theorem Readable.spaced (known : text ∈ infixSigns) (spelled : (operator text).sign.Spelled)
    (first : Readable false left) (nonempty : right ≠ []) (second : Readable safe right) :
    Readable safe (left ++ Mark.behind 1 [operator text] ++ Mark.behind 1 right) := by
  intro previous rest opens closes noStar more
  have blank := head_written_behind (List.cons_ne_nil (operator text) [])
    (Mark.behind 1 right ++ rest)
  obtain ⟨closesLeft, noStarLeft⟩ := closesValue_of_gap blank
  rw [List.append_assoc, List.append_assoc]
  refine first _ _ opens closesLeft (fun _ => noStarLeft) fun token ends => ?_
  refine .between known spelled ends (head_written_behind nonempty rest) fun token opens => ?_
  exact .behind 1 (second _ _ opens closes noStar more)

/-- Two values with a tight operator between them are read back, unless the operator is the power
and the first value could take in its star. -/
theorem Readable.joined {leftSafe : Bool} (isTight : text ∈ Layout.tightOperators)
    (spelled : (Sign.mk .op text).Spelled) (first : Readable leftSafe left)
    (isSafe : text = "**" → leftSafe = true)
    (others : ∀ rest, ∀ c ∈ (written (right ++ rest)).head?, c ∉ ['=', '>', '~', '.'])
    (second : Readable safe right) : Readable safe (left ++ op text :: right) := by
  intro previous rest opens closes noStar more
  have table : ∀ text ∈ Layout.tightOperators, text ∈ Lexeme.tightSigns ∧
      text ∉ [")", "]", "\x7d"] ∧ text ∉ callOperators := by decide
  obtain ⟨tight, noClose, noCall⟩ := table text isTight
  obtain ⟨closesLeft, isPower⟩ := closesValue_of_tight isTight (right ++ rest)
  rw [List.append_assoc, List.cons_append]
  refine first _ _ opens closesLeft ?_ fun token ends => ?_
  · intro loose star
    exact Bool.false_ne_true (loose.symm.trans (isSafe (isPower star)))
  · refine .tight tight spelled (others rest) fun token same => ?_
    exact second _ _ (.of_op same noClose noCall) closes noStar more

end Infix

end Mark

namespace Node

open Mark

/-- The first mark of an expression is no operator that could go on another one. -/
theorem flat_starts {node : Node} (shaped : node.wellShaped = true) (isPlain : node.isPlain = true)
    (isExpr : node.isExpr = true) :
    ∃ mark more, node.flat = mark :: more ∧ mark.blanks = 0 ∧
      (mark.kind ≠ .op ∨ mark.text ∈ ["-", "+", "!", "(", "[", "\x7b"]) := by
  induction node using induction_children with
  | step node ih =>
    obtain ⟨here, inside⟩ := wellShaped_iff.1 shaped
    obtain ⟨isFirm, allPlain⟩ := isPlain_iff.1 isPlain
    cases node with
    | literal kind pos raw =>
        refine ⟨_, [], rfl, rfl, .inl fun isOp => ?_⟩
        cases kind <;> cases isOp
    | symbolLit pos value => exact ⟨_, [], rfl, rfl, .inl (by intro isOp; cases isOp)⟩
    | array pos elements => exact ⟨_, _, rfl, rfl, .inr (by decide)⟩
    | hash pos entries => exact ⟨_, _, rfl, rfl, .inr (by decide)⟩
    | paren pos expr => exact ⟨_, _, rfl, rfl, .inr (by decide)⟩
    | varRef pos inner =>
        cases inner with
        | name kind namePos text =>
            refine ⟨_, [], rfl, rfl, .inl fun isOp => ?_⟩
            cases kind with
            | ivar | cvar | gvar | keyword => cases isOp
            | _ => cases isFirm
        | _ => cases isFirm
    | unary pos op operand =>
        simp only [Node.shaped, Bool.and_eq_true] at here
        simp only [flat]
        split
        · exact ⟨_, _, rfl, rfl, .inl (by decide)⟩
        next noNot =>
          refine ⟨_, _, rfl, rfl, .inr ?_⟩
          have table : ∀ op ∈ unaryOperators, op = "not" ∨ op = "~" ∨
              op ∈ ["-", "+", "!", "(", "[", "\x7b"] := by decide
          rcases table op (List.contains_iff_mem.1 here.1) with isNot | isTilde | known
          · exact absurd isNot noNot
          · simp [plain, isTilde] at isFirm
          · exact known
    | binary pos left op right =>
        simp only [Node.shaped, Bool.and_eq_true] at here
        have mem : left ∈ (Node.binary pos left op right).children := by
          simp [children, fields, Field.toList]
        obtain ⟨mark, more, starts, start⟩ :=
          ih left mem (inside left mem) (allPlain left mem) here.1.2
        simp only [flat, starts]
        split
        · exact ⟨mark, _, rfl, start⟩
        · exact ⟨mark, _, rfl, start⟩
    | _ => first | (cases isExpr; done) | cases isFirm

/-- Before an expression no operator goes on. -/
theorem head_flat {node : Node} (shaped : node.wellShaped = true) (isPlain : node.isPlain = true)
    (isExpr : node.isExpr = true) (spelled : ∀ sign ∈ signs node.flat, sign.Spelled)
    (rest : List Mark) : ∀ c ∈ (written (node.flat ++ rest)).head?, c ∉ ['=', '>', '~', '.'] := by
  have table : ∀ text ∈ ["-", "+", "!", "(", "[", "\x7b"], ∀ c ∈ text.toList.head?,
      c ∉ ['=', '>', '~', '.'] := by decide
  obtain ⟨mark, more, starts, flush, start⟩ := flat_starts shaped isPlain isExpr
  have isSpelled : mark.sign.Spelled := spelled mark.sign (by rw [starts]; exact List.mem_cons_self)
  obtain ⟨-, first, body, same, -⟩ := isSpelled.trimmed
  have head : (written (node.flat ++ rest)).head? = mark.sign.spelling.head? := by
    have chars : mark.chars = mark.sign.spelling := by
      rw [Mark.chars, flush]
      rfl
    rw [starts, List.cons_append, written_cons, chars, same]
    rfl
  rw [head]
  rcases start with noOp | known
  · exact isSpelled.head_ne noOp
  · by_cases isOp : mark.kind = .op
    · have spelling : mark.sign.spelling = mark.text.toList := by
        simp [Sign.spelling, Mark.spelling, Mark.sign, isOp]
      rw [spelling]
      exact table mark.text known
    · exact isSpelled.head_ne isOp

/-- A literal keyword or a variable with a sigil is a value. -/
theorem readable_fixedName {inner : Node} (isFixed : inner.isFixedName = true)
    (spelled : ∀ sign ∈ signs inner.flat, sign.Spelled) : Readable true inner.flat := by
  intro previous rest opens closes _ more
  cases inner with
  | name kind pos text =>
      have here := spelled ⟨kind.tokenKind text, text⟩ List.mem_cons_self
      cases kind with
      | keyword =>
          refine .value here (by simp [NameKind.tokenKind]) opens closes nofun fun token same => ?_
          obtain ⟨kind, rfl⟩ := Token.kind_of_sign same
          refine more token ?_
          have isLiteral : literalKeywords.contains token.text = true := isFixed
          simp only [Lexeme.endsValue, kind, Mark.sign, NameKind.tokenKind]
          rw [isLiteral, Bool.or_true]
      | ivar | cvar | gvar =>
          refine .value here (by simp [NameKind.tokenKind]) opens closes nofun fun token same => ?_
          obtain ⟨kind, -⟩ := Token.kind_of_sign same
          refine more token ?_
          simp [Lexeme.endsValue, kind, Mark.sign, NameKind.tokenKind]
      | _ => cases isFixed
  | _ => cases isFixed

theorem isPrinted_of_isRight {node : Node} (isRight : node.isRight = true) :
    node.isPrinted = true := by
  cases node <;> first | rfl | cases isRight

/-- A plain element of an array is no splat. -/
theorem isExpr_of_isElement {node : Node} (isElement : node.isElement = true)
    (isPlain : node.isPlain = true) : node.isExpr = true := by
  have here := (isPlain_iff.1 isPlain).1
  cases node <;> first | rfl | (cases isElement; done) | cases here

/-- A plain value of a list is no splat. -/
theorem isValue_of_isListed {node : Node} (isListed : node.isListed = true)
    (isPlain : node.isPlain = true) : node.isValue = true := by
  have here := (isPlain_iff.1 isPlain).1
  cases node <;> first | rfl | (cases isListed; done) | cases here

theorem flat_ne_nil {node : Node} (shaped : node.wellShaped = true) (isPlain : node.isPlain = true)
    (isPrinted : node.isPrinted = true) : node.flat ≠ [] := by
  obtain ⟨first, rest, same, -⟩ := @marks_flush ⟨false, 0⟩ _ shaped isPrinted [] 0
  rw [marks_eq_flat isPlain] at same
  simp [same]

/-- The target of an assignment is read back before the operator. -/
theorem readBack_target {target : Node} (shaped : target.wellShaped = true)
    (isField : target.isOfKind .varField = true)
    (spelled : ∀ sign ∈ signs target.flat, sign.Spelled) {previous : Option Token}
    {rest : List Mark} (opens : Opens previous) (blank : (written rest).head? = some ' ')
    (more : ∀ token : Token, Lexeme.endsValue (some token) = true → ReadBack (some token) rest) :
    ReadBack previous (target.flat ++ rest) := by
  cases target with
  | varField pos inner =>
      have here := (wellShaped_iff.1 shaped).1
      cases inner with
      | none => cases here
      | some inner =>
          cases inner with
          | name kind namePos text =>
              have isSpelled := spelled ⟨kind.tokenKind text, text⟩ List.mem_cons_self
              have kinds : kind.tokenKind text ∈
                  [TokenKind.ident, .const, .ivar, .cvar, .gvar] := by
                cases kind with
                | ident =>
                    simp only [NameKind.tokenKind]
                    split <;> simp
                | const | ivar | cvar | gvar => simp [NameKind.tokenKind]
                | _ => cases here
              have noOp : kind.tokenKind text ≠ .op := by
                intro isOp
                rw [isOp] at kinds
                exact absurd kinds (by decide)
              refine .gap isSpelled (isSpelled.fits noOp opens) blank fun token same => ?_
              obtain ⟨isKind, -⟩ := Token.kind_of_sign same
              have isKind : token.kind = kind.tokenKind text := isKind
              refine more token ?_
              rw [← isKind] at kinds
              simp only [List.mem_cons, List.not_mem_nil, or_false] at kinds
              rcases kinds with is | is | is | is | is <;> simp [Lexeme.endsValue, is]
          | _ => cases here
  | _ => cases isField

theorem isExpr_of_isKey {node : Node} (isKey : node.isKey = true)
    (noLabel : ¬ node.isLabel = true) : node.isExpr = true := by
  unfold Node.isKey at isKey
  split at isKey
  · exact absurd rfl noLabel
  · exact isKey

theorem name_of_isLabel {node : Node} (isLabel : node.isLabel = true) :
    ∃ pos text, node = .name .label pos text := by
  unfold Node.isLabel at isLabel
  split at isLabel
  · exact ⟨_, _, rfl⟩
  · cases isLabel

/-- An assignment is read back when its value is. -/
theorem readable_assignment {target : Node} {text : String} {value : List Mark} {safe : Bool}
    (shaped : target.wellShaped = true) (isField : target.isOfKind .varField = true)
    (known : text ∈ infixSigns) (nonempty : value ≠ [])
    (spelled : ∀ sign ∈ signs (target.flat ++ behind 1 [operator text] ++ behind 1 value),
      sign.Spelled)
    (readable : Readable safe value) :
    Readable safe (target.flat ++ behind 1 [operator text] ++ behind 1 value) := by
  intro previous rest opens closes noStar more
  have isSpelled := spelled (operator text).sign (by simp)
  simp only [List.append_assoc]
  refine readBack_target shaped isField (fun sign isSign => spelled sign (by simp [isSign])) opens
    (head_written_behind (List.cons_ne_nil _ _) _) fun token ends => ?_
  refine .between known isSpelled ends (head_written_behind nonempty rest) fun token opens => ?_
  exact .behind 1 (readable _ _ opens closes noStar more)

/-- The values and entries in a plain node lend it all their signs. -/
theorem mem_signs_of_child {node child : Node} (here : node.shaped = true)
    (isFirm : node.plain = true) (mem : child ∈ node.children)
    (isItem : child.isRight = true ∨ child.isEntry = true)
    {sign : Sign} (isSign : sign ∈ signs child.flat) : sign ∈ signs node.flat := by
  simp only [children, fields] at mem
  cases node with
  | array pos elements =>
      simp only [List.flatMap_cons, List.flatMap_nil, List.append_nil, Field.toList] at mem
      simp only [flat, flatList_eq_map, signs_append, signs_cons, List.mem_append, List.mem_cons]
      exact .inl (.inr (mem_signs_inLine (List.mem_map_of_mem mem) isSign))
  | hash pos entries =>
      simp only [List.flatMap_cons, List.flatMap_nil, List.append_nil, Field.toList] at mem
      have nonempty : entries.isEmpty = false := by
        cases entries with
        | nil => cases mem
        | cons => rfl
      simp only [flat, flatList_eq_map, nonempty, Bool.false_eq_true, if_false, signs_append,
        signs_cons, signs_behind, List.mem_append, List.mem_cons]
      exact .inr (.inl (mem_signs_inLine (List.mem_map_of_mem mem) isSign))
  | valueList pos values =>
      simp only [List.flatMap_cons, List.flatMap_nil, List.append_nil, Field.toList] at mem
      simp only [flat, flatList_eq_map]
      exact mem_signs_inLine (List.mem_map_of_mem mem) isSign
  | symbolLit pos value =>
      obtain rfl : child = value := by simpa [Field.toList] using mem
      cases child with
      | name => exact absurd isItem (by simp [isRight, isValue, isExpr, isEntry])
      | _ => cases here
  | varField pos inner =>
      cases inner with
      | none => cases mem
      | some inner =>
          obtain rfl : child = inner := by simpa [Field.toList] using mem
          exact isSign
  | assoc pos left right | assign pos left right | opAssign pos left text right =>
      have mem : child = left ∨ child = right := by simpa [Field.toList] using mem
      rcases mem with rfl | rfl <;> simp [flat, isSign]
  | binary pos left text right =>
      have mem : child = left ∨ child = right := by simpa [Field.toList] using mem
      simp only [flat]
      rcases mem with rfl | rfl <;> split <;> simp [isSign]
  | unary pos text operand =>
      obtain rfl : child = operand := by simpa [Field.toList] using mem
      simp only [flat]
      split <;> simp [isSign]
  | paren pos expr | varRef pos expr =>
      obtain rfl : child = expr := by simpa [Field.toList] using mem
      simp [flat, isSign]
  | _ => first | (cases isFirm; done) | cases mem

section Constructs

variable {pos : Pos} {safe : Bool}

theorem readable_literal {kind : LiteralKind} {raw : String}
    (spelled : Sign.Spelled ⟨kind.tokenKind, raw⟩) :
    Readable true (Node.literal kind pos raw).flat := by
  intro previous rest opens closes noStar more
  have isValue : kind.tokenKind ∉ [.op, .label, .ident] := by cases kind <;> decide
  refine .value spelled isValue opens closes ?_ fun token same => ?_
  · intro isSymbol
    cases kind <;> cases isSymbol
  · obtain ⟨isKind, -⟩ := Token.kind_of_sign same
    refine more token ?_
    cases kind <;> simp [Lexeme.endsValue, isKind, Mark.sign, LiteralKind.tokenKind]

theorem readable_symbolLit {value : Node} (spelled : Sign.Spelled ⟨.symbol, value.nameText⟩) :
    Readable false (Node.symbolLit pos value).flat := by
  intro previous rest opens closes noStar more
  refine .value spelled (by simp) opens closes (fun _ => noStar rfl) fun token same => ?_
  obtain ⟨isKind, -⟩ := Token.kind_of_sign same
  exact more token (by simp [Lexeme.endsValue, isKind, Mark.sign])

theorem readable_array {elements : List Node}
    (spelled : ∀ sign ∈ signs (Node.array pos elements).flat, sign.Spelled)
    (each : ∀ marks ∈ elements.map flat, Readable false marks) :
    Readable true (Node.array pos elements).flat := by
  have opened := spelled ⟨.op, "["⟩ (by simp [flat, Mark.sign, op])
  have closed := spelled ⟨.op, "]"⟩ (by simp [flat, Mark.sign, op])
  simp only [flat, flatList_eq_map]
  refine .enclosed (by decide) (by decide) opened closed ?_ 0
  cases elements with
  | nil => exact .inl rfl
  | cons first others => exact .inr (.inLine (List.cons_ne_nil _ _) each)

theorem readable_hash {entries : List Node}
    (spelled : ∀ sign ∈ signs (Node.hash pos entries).flat, sign.Spelled)
    (each : ∀ marks ∈ entries.map flat, Readable false marks) :
    Readable true (Node.hash pos entries).flat := by
  have opened := spelled ⟨.op, "\x7b"⟩ (by simp [flat, Mark.sign, op])
  have closed := spelled ⟨.op, "\x7d"⟩ (by simp only [flat]; split <;> simp [Mark.sign, op])
  simp only [flat, flatList_eq_map]
  cases entries with
  | nil => exact .enclosed (by decide) (by decide) opened closed (.inl rfl) 0
  | cons first others =>
      exact .enclosed (by decide) (by decide) opened closed
        (.inr (.behind 1 (.inLine (List.cons_ne_nil _ _) each))) 1

/-- An operator before its operand is read back when the operand is. -/
theorem readable_unary {text : String} {operand : Node}
    (known : text ∈ unaryOperators) (noTilde : text ≠ "~")
    (spelled : ∀ sign ∈ signs (Node.unary pos text operand).flat, sign.Spelled)
    (filled : operand.flat ≠ [])
    (starts : ∀ rest, ∀ c ∈ (written (operand.flat ++ rest)).head?, c ∉ ['=', '>', '~', '.'])
    (readable : Readable safe operand.flat) : Readable safe (Node.unary pos text operand).flat := by
  intro previous rest opens closes noStar more
  by_cases isNot : text = "not"
  · have isSpelled := spelled ⟨.keyword, "not"⟩ (by simp [flat, isNot, Mark.sign, word])
    simp only [flat, isNot, if_true, List.cons_append]
    refine .gap isSpelled (isSpelled.fits (by decide) opens) (head_written_behind filled rest)
      fun token same => .behind 1 ?_
    exact readable _ _ (.of_keyword same (by decide) (by decide)) closes noStar more
  · have table : ∀ text ∈ unaryOperators.filter fun text => text != "not" && text != "~",
        text ∈ Lexeme.tightSigns ∧ text ∉ [")", "]", "\x7d"] ∧ text ∉ callOperators := by decide
    obtain ⟨isTight, noClose, noCall⟩ := table text (by simp [known, isNot, noTilde])
    have isSpelled := spelled ⟨.op, text⟩ (by simp [flat, isNot, Mark.sign, op])
    simp only [flat, isNot, if_false, List.cons_append]
    refine .tight isTight isSpelled (starts rest) fun token same => ?_
    exact readable _ _ (.of_op same noClose noCall) closes noStar more

/-- An operation is read back when its operands are. -/
theorem readable_binary {text : String} {left right : Node}
    (known : text ∈ binaryOperators) (isFirm : (Node.binary pos left text right).plain = true)
    (spelled : ∀ sign ∈ signs (Node.binary pos left text right).flat, sign.Spelled)
    (filled : right.flat ≠ [])
    (starts : ∀ rest, ∀ c ∈ (written (right.flat ++ rest)).head?, c ∉ ['=', '>', '~', '.'])
    (first : Readable left.endsSafely left.flat) (second : Readable safe right.flat) :
    Readable safe (Node.binary pos left text right).flat := by
  by_cases isTight : Layout.tightOperators.contains text = true
  · have isSpelled := spelled ⟨.op, text⟩ (by
      simp only [flat, isTight, if_true]
      simp [Mark.sign, op])
    simp only [flat, isTight, if_true]
    refine .joined (List.contains_iff_mem.1 isTight) isSpelled first ?_ starts second
    rintro rfl
    exact isFirm
  · have isSpelled := spelled (operator text).sign (by
      simp only [flat, isTight, Bool.false_eq_true, if_false]
      simp)
    simp only [flat, isTight, Bool.false_eq_true, if_false]
    exact .spaced (List.mem_append_left _ (List.mem_append_left _ known)) isSpelled first.weaken
      filled second

/-- An entry is read back when its value is, and its key if that is no label. -/
theorem readable_assoc {key value : Node}
    (spelled : ∀ sign ∈ signs (Node.assoc pos key value).flat, sign.Spelled)
    (filled : value.flat ≠ []) (first : ¬ key.isLabel = true → Readable false key.flat)
    (second : Readable false value.flat) : Readable false (Node.assoc pos key value).flat := by
  by_cases isLabel : key.isLabel = true
  · obtain ⟨keyPos, text, rfl⟩ := name_of_isLabel isLabel
    have isSpelled := spelled ⟨.label, text⟩ (by simp [flat, Mark.sign, NameKind.tokenKind])
    intro previous rest opens closes noStar more
    simp only [flat, isLabel, if_true, List.append_nil, List.cons_append, List.nil_append]
    refine .gap isSpelled (isSpelled.fits (by intro isOp; cases isOp) opens)
      (head_written_behind filled rest) fun token same => .behind 1 ?_
    exact second _ _ (.of_label same) closes noStar more
  · have isOp : operator "=>" = op "=>" := operator_eq_op (by decide)
    have isSpelled := spelled (operator "=>").sign (by simp [flat, isLabel, isOp])
    simp only [flat, isLabel, Bool.false_eq_true, if_false, ← isOp]
    exact .spaced (by decide) isSpelled (first isLabel) filled second

end Constructs

/-- The marks of a plain tree are read back. -/
theorem readable_flat {node : Node} (shaped : node.wellShaped = true)
    (isPlain : node.isPlain = true) (isItem : node.isRight = true ∨ node.isEntry = true)
    (spelled : ∀ sign ∈ signs node.flat, sign.Spelled) : Readable node.endsSafely node.flat := by
  induction node using induction_children with
  | step node ih =>
    obtain ⟨here, inside⟩ := wellShaped_iff.1 shaped
    obtain ⟨isFirm, allPlain⟩ := isPlain_iff.1 isPlain
    have below (child : Node) (mem : child ∈ node.children)
        (isItem : child.isRight = true ∨ child.isEntry = true) :
        Readable child.endsSafely child.flat :=
      ih child mem (inside child mem) (allPlain child mem) isItem fun sign isSign =>
        spelled sign (mem_signs_of_child here isFirm mem isItem isSign)
    have filled (child : Node) (mem : child ∈ node.children) (isRight : child.isRight = true) :
        child.flat ≠ [] :=
      flat_ne_nil (inside child mem) (allPlain child mem) (isPrinted_of_isRight isRight)
    have starts (child : Node) (mem : child ∈ node.children) (isExpr : child.isExpr = true) :
        ∀ rest, ∀ c ∈ (written (child.flat ++ rest)).head?, c ∉ ['=', '>', '~', '.'] :=
      have isRight := isRight_of_isValue (isValue_of_isExpr isExpr)
      head_flat (inside child mem) (allPlain child mem) isExpr fun sign isSign =>
        spelled sign (mem_signs_of_child here isFirm mem (.inl isRight) isSign)
    have onLine (items : List Node) (mem : ∀ item ∈ items, item ∈ node.children)
        (isItem : ∀ item ∈ items, item.isRight = true ∨ item.isEntry = true) :
        ∀ marks ∈ items.map flat, Readable false marks := by
      intro marks isMarks
      obtain ⟨item, isIn, rfl⟩ := List.mem_map.1 isMarks
      exact (below item (mem item isIn) (isItem item isIn)).weaken
    clear ih
    simp only [children, fields] at below filled starts onLine
    cases node with
    | literal kind pos raw => exact readable_literal (spelled _ List.mem_cons_self)
    | symbolLit pos value => exact readable_symbolLit (spelled _ List.mem_cons_self)
    | varRef pos inner => exact @readable_fixedName inner isFirm spelled
    | array pos elements =>
        simp only [Node.shaped, List.all_eq_true] at here
        refine readable_array spelled
          (onLine elements (by simp [Field.toList]) fun element mem => ?_)
        exact .inl (isRight_of_isValue (isValue_of_isExpr (isExpr_of_isElement (here element mem)
          (allPlain element (by simpa [children, fields, Field.toList] using mem)))))
    | hash pos entries =>
        simp only [Node.shaped, List.all_eq_true] at here
        exact readable_hash spelled
          (onLine entries (by simp [Field.toList]) fun entry mem => .inr (here entry mem))
    | paren pos expr =>
        have opened := spelled ⟨.op, "("⟩ (by simp [flat, Mark.sign, op])
        have closed := spelled ⟨.op, ")"⟩ (by simp [flat, Mark.sign, op])
        have inner := below expr (by simp [Field.toList]) (.inl (isRight_of_isValue here))
        exact .enclosed (by decide) (by decide) opened closed (.inr inner.weaken) 0
    | unary pos text operand =>
        simp only [Node.shaped, Bool.and_eq_true] at here
        have isRight := isRight_of_isValue (isValue_of_isExpr here.2)
        have mem : operand ∈ [Field.node operand].flatMap Field.toList := by simp [Field.toList]
        exact readable_unary (List.contains_iff_mem.1 here.1) (bne_iff_ne.1 isFirm) spelled
          (filled operand mem isRight) (starts operand mem here.2)
          (below operand mem (.inl isRight))
    | binary pos left text right =>
        simp only [Node.shaped, Bool.and_eq_true] at here
        obtain ⟨⟨known, leftExpr⟩, rightExpr⟩ := here
        have mem : right ∈ [Field.node left, Field.node right].flatMap Field.toList := by
          simp [Field.toList]
        have isRight := isRight_of_isValue (isValue_of_isExpr rightExpr)
        have first := below left (by simp [Field.toList])
          (.inl (isRight_of_isValue (isValue_of_isExpr leftExpr)))
        exact readable_binary (List.contains_iff_mem.1 known) isFirm spelled
          (filled right mem isRight) (starts right mem rightExpr) first
          (below right mem (.inl isRight))
    | assoc pos key value =>
        simp only [Node.shaped, Bool.and_eq_true] at here
        obtain ⟨isKey, isExpr⟩ := here
        have isRight := isRight_of_isValue (isValue_of_isExpr isExpr)
        have mem : value ∈ [Field.node key, Field.node value].flatMap Field.toList := by
          simp [Field.toList]
        refine readable_assoc spelled (filled value mem isRight) (fun noLabel => ?_)
          (below value mem (.inl isRight)).weaken
        have keyExpr := isExpr_of_isKey isKey noLabel
        exact (below key (by simp [Field.toList])
          (.inl (isRight_of_isValue (isValue_of_isExpr keyExpr)))).weaken
    | assign pos target value =>
        simp only [Node.shaped, Bool.and_eq_true] at here
        have isOp : operator "=" = op "=" := operator_eq_op (by decide)
        have mem : value ∈ [Field.node target, Field.node value].flatMap Field.toList := by
          simp [Field.toList]
        simp only [flat, ← isOp] at spelled ⊢
        exact readable_assignment (inside target (by simp [children, fields, Field.toList])) isFirm
          (by decide) (filled value mem here.2) spelled (below value mem (.inl here.2)).weaken
    | opAssign pos target text value =>
        simp only [Node.shaped, Bool.and_eq_true] at here
        obtain ⟨⟨-, known⟩, isValue⟩ := here
        have isRight := isRight_of_isValue isValue
        have known := List.contains_iff_mem.1 known
        have isOp : operator text = op text := operator_eq_op (List.mem_append_left _ known)
        have mem : value ∈ [Field.node target, Field.node value].flatMap Field.toList := by
          simp [Field.toList]
        simp only [flat, ← isOp] at spelled ⊢
        exact readable_assignment (inside target (by simp [children, fields, Field.toList])) isFirm
          (List.mem_append_left _ (List.mem_append_right _ known)) (filled value mem isRight)
          spelled (below value mem (.inl isRight)).weaken
    | valueList pos values =>
        simp only [Node.shaped, Bool.and_eq_true, List.all_eq_true] at here
        have each := onLine values (by simp [Field.toList]) fun value mem =>
          .inl (isRight_of_isValue (isValue_of_isListed (here.2 value mem)
            (allPlain value (by simpa [children, fields, Field.toList] using mem))))
        simp only [flat, flatList_eq_map]
        refine .inLine ?_ each
        intro isNil
        simp [List.map_eq_nil_iff.1 isNil] at here
    | _ => first | (cases isFirm; done) | (rcases isItem with isItem | isItem <;> cases isItem)

/-! ## Programs -/

/-- The lines of a plain program are read back. -/
theorem readBack_flatProgram {stmts : List Node}
    (each : ∀ stmt ∈ stmts, Readable stmt.endsSafely stmt.flat) {previous : Option Token}
    (opens : Opens previous) : ReadBack previous (flatProgram stmts) := by
  induction stmts generalizing previous with
  | nil => trivial
  | cons stmt rest ih =>
      obtain ⟨first, others⟩ := List.forall_mem_cons.1 each
      rw [flatProgram, List.flatMap_cons, List.append_assoc]
      refine first _ _ opens rfl (fun _ => by rintro ⟨⟩) fun _ _ => ⟨.inl rfl, fun token same => ?_⟩
      obtain ⟨isBreak, -⟩ := Token.kind_of_sign same
      refine ih others ⟨?_, ?_⟩
      · simp [Lexeme.endsValue, isBreak, Mark.sign, newline]
      · simp [Lexeme.afterCallOperator, Token.isOpIn, isBreak, Mark.sign, newline]

/-- No line of a plain program ends with a blank. -/
theorem isTrimmed_flatProgram {stmts : List Node}
    (spelled : ∀ stmt ∈ stmts, ∀ sign ∈ signs stmt.flat, sign.Spelled) :
    Text.isTrimmed (written (flatProgram stmts)) = true := by
  refine isTrimmed_written fun mark mem => ?_
  simp only [flatProgram, List.mem_flatMap, List.mem_append, List.mem_singleton] at mem
  obtain ⟨stmt, isStmt, inside | isBreak⟩ := mem
  · exact .inr (spelled stmt isStmt mark.sign (List.mem_map_of_mem inside))
  · exact .inl isBreak

end Node

end RubyFormat
