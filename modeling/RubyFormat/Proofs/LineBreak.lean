import RubyFormat.Proofs.Scanned

/-!
# A source is scanned line by line

No lexeme looks across a line break, and behind a line break nothing is left of what was read before.
The tokens of two sources with a line break between them are therefore those of the first, the line
break, and those of the second on later lines.
-/

namespace RubyFormat

namespace Lexeme

/-! ## Lexemes before a line break -/

/-- A run that takes no line break ends with the line. -/
theorem takeWhile_break {p : Char → Bool} (stops : p '\n' = false) (text more : List Char) :
    (text ++ '\n' :: more).takeWhile p = text.takeWhile p := by
  induction text with
  | nil => simp [stops]
  | cons c text ih => simp only [List.cons_append, List.takeWhile_cons, ih]

theorem nameLength_break (text more : List Char) :
    nameLength (text ++ '\n' :: more) = nameLength text := by
  rw [nameLength, nameLength, takeWhile_break (by decide)]

theorem digitsLength_break (text more : List Char) :
    digitsLength (text ++ '\n' :: more) = digitsLength text := by
  rw [digitsLength, digitsLength, takeWhile_break (by decide)]

theorem fractionLength_break (text more : List Char) :
    fractionLength (text ++ '\n' :: more) = fractionLength text := by
  cases text with
  | nil => rfl
  | cons first text =>
      by_cases point : first = '.'
      · subst point
        cases text with
        | nil => rfl
        | cons digit text =>
            have digits := digitsLength_break (digit :: text) more
            rw [List.cons_append] at digits
            simp only [List.cons_append, fractionLength, digits]
      · rw [List.cons_append, fractionLength_of_ne point, fractionLength_of_ne point]

theorem signLength_break (text more : List Char) :
    signLength (text ++ '\n' :: more) = signLength text := by
  cases text with
  | nil => rfl
  | cons first text => rfl

theorem exponentLength?_break (text more : List Char) :
    exponentLength? (text ++ '\n' :: more) = exponentLength? text := by
  cases text with
  | nil => rfl
  | cons mark text =>
      simp only [List.cons_append, exponentLength?, signLength_break,
        List.drop_append_of_le_length (signLength_le text)]
      rw [takeWhile_break (by decide)]

theorem number_break (text more : List Char) :
    number (text ++ '\n' :: more) = number text := by
  have whole := digitsLength_le text
  have fraction := fractionLength_le (text.drop (digitsLength text))
  rw [List.length_drop] at fraction
  simp only [number, digitsLength_break, List.drop_append_of_le_length whole, fractionLength_break]
  rw [List.drop_append_of_le_length (by omega), exponentLength?_break]

/-- A string that is closed is the same before a line break. -/
theorem string_break {quote : Char} (isQuote : quote = '"' ∨ quote = '\'') {text : List Char}
    {lexeme : Lexeme} (found : string quote text = .ok lexeme) (more : List Char) :
    string quote (text ++ '\n' :: more) = .ok lexeme := by
  obtain ⟨kind, extra⟩ := lexeme
  obtain ⟨closes, single, rfl⟩ := string_eq_ok.1 found
  have within := stringLength?_le closes
  have escape : quote ≠ '\\' ∧ quote ≠ '#' := by
    rcases isQuote with rfl | rfl <;> decide
  refine string_eq_ok.2 ⟨?_, by rwa [List.take_append_of_le_length within], rfl⟩
  obtain ⟨body, rest, rfl, rfl⟩ : ∃ body rest, text = body ++ rest ∧ body.length = extra :=
    ⟨text.take extra, text.drop extra, (List.take_append_drop extra text).symm,
      List.length_take_of_le within⟩
  rw [List.append_assoc]
  exact stringLength?_append escape.1 escape.2 closes

/-- A regular expression that is closed is the same before a line break. -/
theorem regexpLength?_break {text : List Char} {length : Nat}
    (found : regexpLength? text = some length) (more : List Char) :
    regexpLength? (text ++ '\n' :: more) = some length := by
  fun_induction regexpLength? text generalizing length with
  | case1 | case2 | case5 => cases found
  | case3 c rest ih =>
      obtain ⟨inner, isInner, rfl⟩ := Option.map_eq_some_iff.1 found
      rw [List.cons_append, List.cons_append, regexpLength?_escape, ih isInner]
      rfl
  | case4 rest =>
      cases found
      rw [List.cons_append, regexpLength?_cons (by decide), if_pos rfl, takeWhile_break (by decide)]
  | case6 c rest noEscape noEscapeToo noSlash noBreak ih =>
      obtain ⟨inner, isInner, rfl⟩ := Option.map_eq_some_iff.1 found
      have noBackslash : c ≠ '\\' := by
        rintro rfl
        cases rest with
        | nil => exact noEscape rfl rfl
        | cons next rest => exact noEscapeToo next rest rfl rfl
      rw [List.cons_append, regexpLength?_cons noBackslash, if_neg noSlash, if_neg noBreak, ih isInner]
      rfl

theorem sigilName_break (sigil : Char) (text more : List Char) :
    sigilName sigil (text ++ '\n' :: more) = sigilName sigil text := by
  match text with
  | [] => simp [sigilName, show isNameStart '\n' = false by decide]
  | [c] =>
      have name := nameLength_break [c] more
      have none := nameLength_break [] more
      simp only [List.cons_append, List.nil_append] at name none
      by_cases isClass : sigil = '@' ∧ c = '@'
      · simp [sigilName, isClass, show isNameStart '\n' = false by decide]
      · simp [sigilName, isClass, name]
  | c :: d :: text =>
      have name := nameLength_break (c :: d :: text) more
      have behind := nameLength_break (d :: text) more
      simp only [List.cons_append] at name behind
      by_cases isClass : sigil = '@' ∧ c = '@'
      · simp [sigilName, isClass, behind]
      · simp [sigilName, isClass, name]

theorem symbolMark_break (text more : List Char) :
    symbolMark (text ++ '\n' :: more) = symbolMark text := by
  match text with
  | [] => rfl
  | [mark] => simp [symbolMark]
  | mark :: next :: text => rfl

theorem nameMark_break (text more : List Char) :
    nameMark (text ++ '\n' :: more) = nameMark text := by
  match text with
  | [] => rfl
  | [mark] => simp [nameMark]
  | [mark, next] => simp [nameMark]
  | mark :: next :: last :: text => rfl

theorem isLabelColon_break (text more : List Char) :
    isLabelColon (text ++ '\n' :: more) = isLabelColon text := by
  match text with
  | [] => rfl
  | [c] =>
      by_cases colon : c = ':'
      · subst colon
        rfl
      · simp [isLabelColon, colon]
  | c :: next :: text =>
      by_cases colon : c = ':'
      · subst colon
        rfl
      · simp [isLabelColon, colon]

/-- An operator has no line break, so that none starts with the end of a line. -/
theorem find?_break {operators : List String} (single : ∀ operator ∈ operators, '\n' ∉ operator.toList)
    (text more : List Char) :
    operators.find? (fun operator => operator.toList.isPrefixOf (text ++ '\n' :: more)) =
      operators.find? (fun operator => operator.toList.isPrefixOf text) := by
  induction operators with
  | nil => rfl
  | cons operator operators ih =>
      obtain ⟨first, others⟩ := List.forall_mem_cons.1 single
      have same : operator.toList.isPrefixOf (text ++ '\n' :: more) =
          operator.toList.isPrefixOf text := by
        rw [Bool.eq_iff_iff, List.isPrefixOf_iff_prefix, List.isPrefixOf_iff_prefix]
        refine ⟨fun starts => ?_, fun starts => starts.trans (List.prefix_append _ _)⟩
        rcases prefix_or_grows starts with within | ⟨c, head, grown⟩
        · exact within
        · obtain rfl : '\n' = c := by simpa using head
          exact absurd (grown.subset (by simp)) first
      rw [List.find?_cons, List.find?_cons, same, ih others]

theorem symbol?_break (previous : Option Token) (text more : List Char) :
    symbol? previous (text ++ '\n' :: more) = symbol? previous text := by
  have single : ∀ operator ∈ symbolOperators, '\n' ∉ operator.toList := by decide
  cases text with
  | nil =>
      have none : symbolOperators.find? (fun operator => operator.toList.isPrefixOf ('\n' :: more)) =
          none := (find?_break single [] more).trans (by decide)
      rw [List.nil_append]
      simp [symbol?, none, show isNameStart '\n' = false by decide]
  | cons first text =>
      have name := nameLength_break (first :: text) more
      have operators := find?_break single (first :: text) more
      have within := nameLength_le (first :: text)
      have mark := symbolMark_break ((first :: text).drop (nameLength (first :: text))) more
      rw [← List.drop_append_of_le_length within] at mark
      rw [List.cons_append] at name operators mark
      simp only [symbol?, List.cons_append, name, operators, mark]

theorem wordLength_break (text more : List Char) :
    wordLength (text ++ '\n' :: more) = wordLength text := by
  rw [wordLength, wordLength, nameLength_break, List.drop_append_of_le_length (nameLength_le text),
    nameMark_break]

theorem word_break (previous : Option Token) (first : Char) (text more : List Char) :
    word previous first (text ++ '\n' :: more) = word previous first text := by
  have within := wordLength_le text
  rw [word_eq, word_eq, wordLength_break, List.drop_append_of_le_length within, isLabelColon_break,
    List.take_append_of_le_length within]

theorem operator_break (first : Char) (text more : List Char) :
    operator first (text ++ '\n' :: more) = operator first text := by
  have longest := find?_break (by decide : ∀ operator ∈ longOperators, '\n' ∉ operator.toList)
    (first :: text) more
  rw [List.cons_append] at longest
  rw [operator, operator, longest]

/-- A lexeme is the same before a line break. -/
theorem find_break {previous : Option Token} {first : Char} {text : List Char} {lexeme : Lexeme}
    (found : find previous first text = .ok lexeme) (more : List Char) :
    find previous first (text ++ '\n' :: more) = .ok lexeme := by
  unfold find at found ⊢
  split at found
  next digit => rwa [if_pos digit, number_break]
  next noDigit =>
  rw [if_neg noDigit]
  split at found
  next quote => rw [if_pos quote, string_break quote found]
  next noQuote =>
  rw [if_neg noQuote]
  split at found
  next sigil => rwa [if_pos sigil, sigilName_break]
  next noSigil =>
  rw [if_neg noSigil]
  split at found
  next colon => rwa [if_pos colon, symbol?_break, operator_break]
  next noColon =>
  rw [if_neg noColon]
  split at found
  next slash =>
    rw [if_pos slash]
    obtain ⟨kind, extra⟩ := lexeme
    obtain ⟨closes, rfl⟩ := regexp_eq_ok.1 found
    exact regexp_eq_ok.2 ⟨regexpLength?_break closes more, rfl⟩
  next noSlash =>
    rwa [if_neg noSlash, wordOrOperator, word_break, operator_break]

/-- A lexeme depends on the token before it only as far as that ends a value or leads to a
message. -/
theorem find_congr {previous other : Option Token} (value : endsValue previous = endsValue other)
    (call : afterCallOperator previous = afterCallOperator other) (first : Char) (text : List Char) :
    find previous first text = find other first text := by
  simp only [find, symbol?, wordOrOperator, word, value, call]

end Lexeme

/-! ## Tokens before a line break -/

namespace Tokens

theorem isEndMark_break (c : Char) (text more : List Char) :
    isEndMark (c :: text ++ '\n' :: more) = isEndMark (c :: text) := by
  have single : '\n' ∉ "__END__".toList := by decide
  rw [Bool.eq_iff_iff, isEndMark_iff, isEndMark_iff]
  constructor
  · rintro ⟨rest, whole, ends⟩
    -- the mark has no line break, so that it lies before this one
    rcases List.append_eq_append_iff.1 whole with ⟨part, within, behind⟩ | ⟨part, within, behind⟩
    · cases part with
      | nil => exact ⟨[], by rw [within]; simp, .inl rfl⟩
      | cons d part =>
          obtain ⟨rfl, -⟩ := List.cons.inj behind
          exact absurd (by rw [within]; simp) single
    · refine ⟨part, within, ?_⟩
      cases part with
      | nil => exact .inl rfl
      | cons d part =>
          rw [behind] at ends
          exact .inr (ends.resolve_left nofun)
  · rintro ⟨rest, whole, ends⟩
    refine ⟨rest ++ '\n' :: more, by rw [whole, List.append_assoc], .inr ?_⟩
    rcases ends with rfl | newline
    · rfl
    · rw [List.head?_append, newline]
      rfl

/-! ### The scanner at each thing that can stand in a text -/

section Steps

variable (previous : Option Token) (pos : Pos) (spaced : Bool)

theorem scan_newline (tail : List Char) :
    scan 0 previous pos spaced ('\n' :: tail) =
      (scan 0 (some (.ofBreak pos spaced)) pos.nextLine false tail).map
        (cons (.ofBreak pos spaced)) := by
  rw [scan]
  rfl

theorem scan_gap {c : Char} (blank : isGap c = true) (tail : List Char) :
    scan 0 previous pos spaced (c :: tail) = scan 0 previous (pos.right 1) true tail := by
  have noBreak : c ≠ '\n' := by
    rintro rfl
    cases blank
  rw [scan]
  simp only [noBreak, blank, if_false, if_true]

theorem scan_continued (tail : List Char) :
    scan 0 previous pos spaced ('\\' :: '\n' :: tail) = scan 0 previous pos.nextLine true tail := by
  rw [scan]
  rfl

theorem scan_comment {line tail : List Char} (single : '\n' ∉ line)
    (ends : tail = [] ∨ tail.head? = some '\n') :
    scan 0 previous pos spaced ('#' :: (line ++ tail)) =
      (scan 0 (some (.ofComment line pos spaced)) (pos.right (line.length + 1)) spaced tail).map
        (cons (.ofComment line pos spaced)) := by
  have isLine : (line ++ tail).takeWhile (· != '\n') = line := by
    rw [List.takeWhile_append_of_pos]
    · rcases ends with rfl | newline
      · simp
      · obtain ⟨more, rfl⟩ := List.head?_eq_some_iff.1 newline
        simp
    · intro c mem
      simpa using fun isBreak : c = '\n' => single (isBreak ▸ mem)
  have noGap : isGap '#' = false := rfl
  rw [scan]
  simp only [isLine, List.take_left, noGap, scan_eq_drop line.length, List.drop_left]
  rfl

theorem scan_found {first : Char} {body tail : List Char} {kind : TokenKind}
    (noMark : ¬ (pos.col = 1 ∧ isEndMark (first :: (body ++ tail)) = true))
    (found : Lexeme.find previous first (body ++ tail) = .ok ⟨kind, body.length⟩) :
    scan 0 previous pos spaced (first :: (body ++ tail)) =
      (scan 0 (some (.ofLexeme kind first body pos spaced)) (pos.right (body.length + 1)) false
        tail).map (cons (.ofLexeme kind first body pos spaced)) := by
  have sameText : Lexeme.text ⟨kind, body.length⟩ first (body ++ tail) =
      Lexeme.text ⟨kind, body.length⟩ first body := by
    simp only [Lexeme.text, List.take_left, List.take_length]
  rw [scan_of_find found noMark, sameText, List.drop_left]
  rfl

end Steps

/-- The tokens of two sources with a line break between them, which takes the place of the end of the
first. -/
def joined (tokens more : Tokens) : Tokens :=
  ⟨tokens.body ++ .ofBreak tokens.close.pos tokens.close.spaced :: more.body, more.close⟩

theorem map_map_joined (token : Token) (tokens : Tokens) (found : Except LexError Tokens) :
    (found.map (joined tokens)).map (cons token) = found.map (joined (tokens.cons token)) := by
  cases found with
  | error error => rfl
  | ok more => rfl

/-- A text that is scanned to its end is scanned alike before a line break. -/
theorem Scanned.scan_break {previous : Option Token} {pos : Pos} {spaced : Bool}
    {text left : List Char} {tokens : Tokens} (scanned : Scanned previous pos spaced text tokens left)
    (atEnd : left = []) (behind : List Char) :
    scan 0 previous pos spaced (text ++ '\n' :: behind) =
      (scan 0 (some (.ofBreak tokens.close.pos tokens.close.spaced)) tokens.close.pos.nextLine false
        behind).map (joined tokens) := by
  induction scanned with
  | done => exact scan_newline _ _ _ behind
  | mark atStart isMark =>
      subst atEnd
      cases isMark
  | newline more ih =>
      rw [List.cons_append, scan_newline, ih atEnd, map_map_joined]
      rfl
  | gap blank more ih => rw [List.cons_append, scan_gap _ _ _ blank, ih atEnd]
  | continued more ih => rw [List.cons_append, List.cons_append, scan_continued, ih atEnd]
  | @comment _ _ _ line tail _ _ single ends more ih =>
      have line : tail ++ '\n' :: behind = [] ∨ (tail ++ '\n' :: behind).head? = some '\n' := by
        rcases ends with rfl | newline
        · exact .inr rfl
        · rw [List.head?_append, newline]
          exact .inr rfl
      rw [List.cons_append, List.append_assoc, scan_comment _ _ _ single line, ih atEnd, map_map_joined]
      rfl
  | @lexeme _ _ _ first body tail _ _ _ noMark found more ih =>
      rw [← isEndMark_break first (body ++ tail) behind, List.cons_append, List.append_assoc] at noMark
      have same := Lexeme.find_break found behind
      rw [List.append_assoc] at same
      rw [List.cons_append, List.append_assoc, scan_found _ _ _ noMark same, ih atEnd, map_map_joined]
      rfl

end Tokens

/-! ## Places on later lines -/

/-- The place on the line that many lines below. -/
def Pos.lower (pos : Pos) (lines : Nat) : Pos :=
  ⟨pos.line + lines, pos.col⟩

def Token.lower (token : Token) (lines : Nat) : Token :=
  { token with pos := token.pos.lower lines }

def LexError.lower (error : LexError) (lines : Nat) : LexError :=
  { error with pos := error.pos.lower lines }

namespace Tokens

def lower (tokens : Tokens) (lines : Nat) : Tokens :=
  ⟨tokens.body.map (·.lower lines), tokens.close.lower lines⟩

/-- What is scanned on lines below, be it tokens or an error. -/
def lowered (lines : Nat) : Except LexError Tokens → Except LexError Tokens
  | .ok tokens => .ok (tokens.lower lines)
  | .error error => .error (error.lower lines)

theorem lowered_map_cons (lines : Nat) (token : Token) (found : Except LexError Tokens) :
    lowered lines (found.map (cons token)) = (lowered lines found).map (cons (token.lower lines)) := by
  cases found with
  | error error => rfl
  | ok tokens => rfl

theorem lower_nextLine (pos : Pos) (lines : Nat) :
    (pos.lower lines).nextLine = pos.nextLine.lower lines := by
  simp only [Pos.nextLine, Pos.lower, Nat.add_right_comm]

/-- A text is scanned alike on lines below, behind a token that tells as much about what follows. -/
theorem scan_lower {inside : Nat} {previous other : Option Token} (lines : Nat) (pos : Pos)
    (spaced : Bool) (text : List Char)
    (value : Lexeme.endsValue other = Lexeme.endsValue previous)
    (call : Lexeme.afterCallOperator other = Lexeme.afterCallOperator previous) :
    scan inside other (pos.lower lines) spaced text =
      lowered lines (scan inside previous pos spaced text) := by
  induction text generalizing inside previous other pos spaced with
  | nil => rfl
  | cons first tail ih =>
      cases inside with
      | succ inside => exact ih pos spaced value call
      | zero =>
          -- all tests of the scanner have the same outcome on the lines below
          rw [scan, scan, Lexeme.find_congr value call, apply_ite (lowered lines),
            apply_ite (lowered lines), apply_ite (lowered lines), apply_ite (lowered lines),
            apply_ite (lowered lines)]
          refine ite_congr rfl (fun _ => ?_) fun _ => ite_congr rfl (fun _ => ?_) fun _ =>
            ite_congr rfl (fun _ => ?_) fun _ => ite_congr rfl (fun _ => ?_) fun _ =>
            ite_congr rfl (fun _ => rfl) fun _ => ?_
          · rw [lowered_map_cons, lower_nextLine]
            exact congrArg (Except.map _) (ih pos.nextLine false rfl rfl)
          · exact ih (pos.right 1) true value call
          · rw [lower_nextLine]
            exact ih pos.nextLine true value call
          · rw [lowered_map_cons]
            exact congrArg (Except.map _) (ih (pos.right _) spaced rfl rfl)
          · cases Lexeme.find previous first tail with
            | error cause => rfl
            | ok lexeme =>
                dsimp only
                rw [lowered_map_cons]
                exact congrArg (Except.map _) (ih (pos.right _) false rfl rfl)

/--
A source that is scanned to its end, a line break and another source have the tokens of the first,
with a line break in the place of its end, and those of the second on the lines below.  If the second
cannot be scanned, neither can the whole, for the same reason on a line below.
-/
theorem ofSource_append {first second : String} {tokens : Tokens}
    (lexed : ofSource first = .ok tokens) (toEnd : ∃ slices, Cut first.toList tokens slices []) :
    ofSource (first ++ "\n" ++ second) =
      match ofSource second with
      | .ok more => .ok (tokens.joined (more.lower tokens.close.pos.line))
      | .error error => .error (error.lower tokens.close.pos.line) := by
  obtain ⟨slices, cut⟩ := toEnd
  have whole : (first ++ "\n" ++ second).toList = first.toList ++ '\n' :: second.toList := by
    have spelled : "\n".toList = ['\n'] := by decide
    rw [String.toList_append, String.toList_append, spelled]
    simp
  have start : tokens.close.pos.nextLine = Pos.start.lower tokens.close.pos.line := by
    rw [Pos.nextLine, Pos.lower, Pos.start, Nat.add_comm]
  have below : scan 0 (some (.ofBreak tokens.close.pos tokens.close.spaced))
      tokens.close.pos.nextLine false second.toList =
        lowered tokens.close.pos.line (ofSource second) := by
    rw [start]
    exact scan_lower _ _ _ _ rfl rfl
  rw [ofSource, whole, (cut.scanned lexed).scan_break rfl, below]
  cases ofSource second with
  | error error => rfl
  | ok more => rfl

/-- The first line ends with a comment, behind which the second starts with a regular expression. -/
theorem ofSource_append_comment :
    ∃ tokens, ofSource "a. # b" = .ok tokens ∧ (∃ slices, Cut "a. # b".toList tokens slices []) ∧
      ofSource ("a. # b" ++ "\n" ++ "/c/") =
        match ofSource "/c/" with
        | .ok more => .ok (tokens.joined (more.lower tokens.close.pos.line))
        | .error error => .error (error.lower tokens.close.pos.line) := by
  let slices : List Slice := [⟨[], ⟨.ident, "a", ⟨1, 1⟩, false⟩⟩, ⟨[], ⟨.op, ".", ⟨1, 2⟩, false⟩⟩,
    ⟨[' '], ⟨.comment, "# b", ⟨1, 4⟩, true⟩⟩, ⟨[], ⟨.eof, "", ⟨1, 7⟩, true⟩⟩]
  let tokens : Tokens := ⟨[⟨.ident, "a", ⟨1, 1⟩, false⟩, ⟨.op, ".", ⟨1, 2⟩, false⟩,
    ⟨.comment, "# b", ⟨1, 4⟩, true⟩], ⟨.eof, "", ⟨1, 7⟩, true⟩⟩
  have lexed : ofSource "a. # b" = .ok tokens := by decide +kernel
  have cut : Cut "a. # b".toList tokens slices [] :=
    ⟨rfl, by decide +kernel, ⟨⟨rfl, by decide⟩, ⟨rfl, by decide⟩, ⟨rfl, by decide⟩,
      ⟨nofun, by decide +kernel⟩, trivial⟩, .inl rfl⟩
  exact ⟨tokens, lexed, ⟨slices, cut⟩, ofSource_append lexed ⟨slices, cut⟩⟩

end Tokens

end RubyFormat
